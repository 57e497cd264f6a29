import Mathlib.Data.List.FinRange
import ScApi.Lib.ReadSpec
import ScApi.ShmAccess

/-!
# Opening a session

`openSession` copies the shared memory of a session, a header with offsets, sizes and counts that the
backend has chosen, and `tryOpeningSession` works on the copy. It looks for a reference to each block
that it needs, copies the public keys, and opens the blocks. It compares what it is about to read
with the size that the header itself gives, not with the length of the copy.

## Main results

* `yields_selectRefs`, `yields_resolveKeys`, `yields_openBlocks`: which bytes each loop reads.
* `readsWithin_of_wellFormed`: headers with which nothing else is read.
* `tryOpeningSession_safe_iff`: when the copy is read only inside.
-/

namespace ScApi

open Bytes BoundedRead

/-! ### The header -/

/-- The fields of an `SC_API_PROTOCOL_Session_t` that are read from the copy. -/
inductive SessionField where
  | sessionId
  | sessionDataSize
  | udpControlProtocolVersion
  | udpControlMaxPlaintextPacketSize
  | udpControlMaxEncryptedPacketSize
  | shmReferenceCount
  | shmReferenceSize
  | shmReferenceOffset
  | publicKeyOffset (i : Fin 8)
  deriving DecidableEq, Repr

namespace SessionField

/-- The offset of the field in the struct. -/
def offset : SessionField → ℕ
  | sessionId => 4
  | sessionDataSize => 16
  | udpControlProtocolVersion => 68
  | udpControlMaxPlaintextPacketSize => 94
  | udpControlMaxEncryptedPacketSize => 96
  | shmReferenceCount => 116
  | shmReferenceSize => 118
  | shmReferenceOffset => 120
  | publicKeyOffset i => 124 + 2 * i

/-- The size of the field. -/
def size : SessionField → ℕ
  | sessionId | sessionDataSize | udpControlProtocolVersion | shmReferenceOffset => 4
  | udpControlMaxPlaintextPacketSize | udpControlMaxEncryptedPacketSize | shmReferenceCount
  | shmReferenceSize | publicKeyOffset _ => 2

/-- Read the field. -/
def read (mem : List UInt8) (f : SessionField) : Read ℕ :=
  natAt mem f.offset f.size

/-- The value of the field. -/
def value (mem : List UInt8) (f : SessionField) : ℕ :=
  natOf mem f.offset f.size

end SessionField

/-- `is_within_session_buffer`. -/
def isWithinSessionBuffer (mem : List UInt8) (offset size count : ℕ) : Read Bool := do
  let sessionDataSize ← SessionField.sessionDataSize.read mem
  pure (offset + size * count ≤ sessionDataSize)

/-! ### References to blocks -/

/-- `RequiredShmRef`. -/
structure RequiredShmRef where
  id : ℕ
  version : UInt32
  deriving DecidableEq, Repr

/-- `required_shm_refs`: device info, variable header, variable data, telemetry definitions, sim data. -/
def requiredShmRefs : List RequiredShmRef :=
  [⟨0x89765893, 1⟩, ⟨0x85532367, 1⟩, ⟨0x85782367, 1⟩, ⟨0x78d38efb, 1⟩, ⟨0x896f43a2, 1⟩]

/-- The references, as offsets in the copy; `none` if the table is not in the buffer. The offset of
the table is signed, but it is compared as an unsigned number. -/
def shmRefs (mem : List UInt8) : Read (Option (List ℤ)) := do
  let offset ← SessionField.shmReferenceOffset.read mem
  let size ← SessionField.shmReferenceSize.read mem
  let count ← SessionField.shmReferenceCount.read mem
  let within ← isWithinSessionBuffer mem offset size count
  if within then
    pure (some ((List.range count).map fun i : ℕ => wrap32 offset + size * i))
  else
    pure none

/-- The search for a required reference. -/
def findRef (mem : List UInt8) (req : RequiredShmRef) : List ℤ → Read (Option ℤ)
  | [] => pure none
  | ref :: refs => do
      let id ← natAt mem ref 4
      if id = req.id then do
        let version ← natAt mem (ref + 4) 4
        if isShmVersionCompatible req.version (UInt32.ofNat version) then
          pure (some ref)
        else
          findRef mem req refs
      else
        findRef mem req refs

/-- The search for all required references. -/
def selectRefs (mem : List UInt8) (refs : List ℤ) :
    List RequiredShmRef → List ℤ → Read (Option (List ℤ))
  | [], selected => pure (some selected)
  | req :: reqs, selected => do
      match ← findRef mem req refs with
      | some ref => selectRefs mem refs reqs (selected ++ [ref])
      | none => pure none

/-- `ShmBlock::open`. The operating system opens the file with the given path and size. -/
def openBlock (openForReadOnly : List UInt8 → ℕ → Bool) (mem : List UInt8) (ref : ℤ) :
    Read Bool := do
  let last ← byteAt mem (ref + 75)
  if last ≠ 0 then
    pure false
  else do
    let path ← cString mem (ref + 12)
    let size ← natAt mem (ref + 8) 4
    pure (openForReadOnly path size)

/-- The loop that opens the selected blocks: whether all have been opened. -/
def openBlocks (openForReadOnly : List UInt8 → ℕ → Bool) (mem : List UInt8) : List ℤ → Read Bool
  | [] => pure true
  | ref :: refs => do
      let id ← natAt mem ref 4
      if id ∈ requiredShmRefs.map RequiredShmRef.id then do
        if ← openBlock openForReadOnly mem ref then
          openBlocks openForReadOnly mem refs
        else
          pure false
      else
        pure false

/-! ### Public keys -/

/-- `SecureSessionOptions::Method`. -/
structure SecureSessionMethod where
  method : ℕ
  publicKey : List UInt8
  signature : List UInt8
  deriving DecidableEq, Repr

/-- `SecureSessionOptions`. -/
structure SecureSessionOptions where
  sessionId : ℕ
  options : List SecureSessionMethod
  deriving DecidableEq, Repr

/-- `std::memcpy` out of the copy. -/
def copyArea (mem : List UInt8) (i : ℤ) (n : ℕ) : Read (List UInt8) :=
  if n = 0 then pure [] else bytesAt mem i n

/-- The part of a turn of `resolveSecureSessionOptions` behind the bounds checks. -/
def copyKey (mem : List UInt8) (hdr keySize keyOffset signatureSize signatureOffset : ℕ) :
    Read SecureSessionMethod := do
  let method ← natAt mem hdr 2
  let publicKey ← copyArea mem (hdr + keyOffset : ℕ) keySize
  let signature ← copyArea mem (hdr + signatureOffset : ℕ) signatureSize
  pure { method, publicKey, signature }

/-- A turn of `resolveSecureSessionOptions` with the offset of a public key header; `none` is
`error_protocol`. -/
def resolveKey (mem : List UInt8) (hdr : ℕ) : Read (Option SecureSessionMethod) := do
  let within ← isWithinSessionBuffer mem hdr 10 1
  if ¬ within then
    pure none
  else do
    let keyOffset ← natAt mem (hdr + 4) 2
    let keySize ← natAt mem (hdr + 2) 2
    let within ← isWithinSessionBuffer mem (hdr + keyOffset) keySize 1
    if ¬ within then
      pure none
    else do
      let signatureOffset ← natAt mem (hdr + 8) 2
      let signatureSize ← natAt mem (hdr + 6) 2
      let within ← isWithinSessionBuffer mem (hdr + signatureOffset) signatureSize 1
      if ¬ within then
        pure none
      else do
        let key ← copyKey mem hdr keySize keyOffset signatureSize signatureOffset
        pure (some key)

/-- The loop of `resolveSecureSessionOptions`. -/
def resolveKeys (mem : List UInt8) :
    List (Fin 8) → List SecureSessionMethod → Read (Option (List SecureSessionMethod))
  | [], options => pure (some options)
  | i :: is, options => do
      let hdr ← (SessionField.publicKeyOffset i).read mem
      if hdr = 0 then
        resolveKeys mem is options
      else do
        match ← resolveKey mem hdr with
        | some key => resolveKeys mem is (options ++ [key])
        | none => pure none

/-- `ApiCore::Impl::resolveSecureSessionOptions`. -/
def resolveSecureSessionOptions (mem : List UInt8) : Read (Except ResultCode SecureSessionOptions) := do
  match ← resolveKeys mem (List.finRange 8) [] with
  | some options => do
      let sessionId ← SessionField.sessionId.read mem
      pure (.ok { sessionId, options })
  | none => pure (.error .errorProtocol)

/-! ### The session -/

/-- What a new session is given. -/
structure SessionHandles where
  sessionId : ℕ
  udpMaxPlaintextPayload : ℕ
  udpMaxEncryptedPayload : ℕ
  secureSessionOpts : SecureSessionOptions
  deriving DecidableEq, Repr

/-- `SC_API_PROTOCOL_UDP_PROTOCOL_VERSION_MAJOR`. -/
def udpProtocolVersionMajor : ℕ := 0

/-- The comparison of the packet sizes with `SC_API_PROTOCOL_UDP_CONTROL_MIN_PLAINTEXT_PACKET_SIZE_LIMIT`
and `SC_API_PROTOCOL_UDP_CONTROL_MIN_ENCRYPTED_PACKET_SIZE_LIMIT`. -/
def maxPacketSizesTooSmall (mem : List UInt8) : Read Bool := do
  let plaintext ← SessionField.udpControlMaxPlaintextPacketSize.read mem
  if plaintext < 4096 then
    pure true
  else do
    let encrypted ← SessionField.udpControlMaxEncryptedPacketSize.read mem
    pure (encrypted < 1400)

/-- The part of `tryOpeningSession` behind the selection of the blocks. -/
def openSelected (coreSessionId : ℕ) (openForReadOnly : List UInt8 → ℕ → Bool) (mem : List UInt8)
    (selected : List ℤ) : Read (Except ResultCode SessionHandles) := do
  let sessionId ← SessionField.sessionId.read mem
  if coreSessionId ≠ sessionId then
    pure (.error .errorBusy)
  else do
    let udpMaxPlaintextPayload ← SessionField.udpControlMaxPlaintextPacketSize.read mem
    let udpMaxEncryptedPayload ← SessionField.udpControlMaxEncryptedPacketSize.read mem
    match ← resolveSecureSessionOptions mem with
    | .error code => pure (.error code)
    | .ok secureSessionOpts => do
        let opened ← openBlocks openForReadOnly mem selected
        if ¬ opened then
          pure (.error .errorCannotConnect)
        else do
          let sessionId ← SessionField.sessionId.read mem
          pure (.ok { sessionId, udpMaxPlaintextPayload, udpMaxEncryptedPayload, secureSessionOpts })

/-- `ApiCore::Impl::tryOpeningSession`, on the bytes of the copy. The core block names the session
`coreSessionId`. -/
def tryOpeningSession (coreSessionId : ℕ) (openForReadOnly : List UInt8 → ℕ → Bool)
    (mem : List UInt8) : Read (Except ResultCode SessionHandles) := do
  let version ← SessionField.udpControlProtocolVersion.read mem
  if version / 65536 ≠ udpProtocolVersionMajor then
    pure (.error .errorIncompatible)
  else do
    if ← maxPacketSizesTooSmall mem then
      pure (.error .errorProtocol)
    else do
      match ← shmRefs mem with
      | none => pure (.error .errorProtocol)
      | some refs => do
          match ← selectRefs mem refs requiredShmRefs [] with
          | none => pure (.error .errorIncompatible)
          | some selected => openSelected coreSessionId openForReadOnly mem selected

/-! ### What the copy says -/

section

variable (mem : List UInt8)

/-- An area lies in the buffer, by the size in the header. -/
def fits (offset size count : ℕ) : Bool :=
  offset + size * count ≤ SessionField.sessionDataSize.value mem

/-- The header is accepted, and so is the table of references. -/
def headerAccepted : Bool :=
  SessionField.udpControlProtocolVersion.value mem / 65536 = udpProtocolVersionMajor ∧
    4096 ≤ SessionField.udpControlMaxPlaintextPacketSize.value mem ∧
    1400 ≤ SessionField.udpControlMaxEncryptedPacketSize.value mem ∧
    fits mem (SessionField.shmReferenceOffset.value mem) (SessionField.shmReferenceSize.value mem)
      (SessionField.shmReferenceCount.value mem)

/-- The references in the table. -/
def refsOf : List ℤ :=
  (List.range (SessionField.shmReferenceCount.value mem)).map fun i : ℕ =>
    wrap32 (SessionField.shmReferenceOffset.value mem) + SessionField.shmReferenceSize.value mem * i

/-- The reference is to the required block. -/
def isRef (req : RequiredShmRef) (ref : ℤ) : Bool :=
  natOf mem ref 4 = req.id ∧ isShmVersionCompatible req.version (UInt32.ofNat (natOf mem (ref + 4) 4))

/-- The first reference to a required block. -/
def refOf (refs : List ℤ) (req : RequiredShmRef) : Option ℤ :=
  refs.find? (isRef mem req)

/-- The header of the public key is rejected. -/
def keyRejected (i : Fin 8) : Bool :=
  let hdr := (SessionField.publicKeyOffset i).value mem
  hdr ≠ 0 ∧ ¬ (fits mem hdr 10 1 ∧ fits mem (hdr + natOf mem (hdr + 4) 2) (natOf mem (hdr + 2) 2) 1 ∧
    fits mem (hdr + natOf mem (hdr + 8) 2) (natOf mem (hdr + 6) 2) 1)

/-- The block of a reference can be opened. -/
def opens (openForReadOnly : List UInt8 → ℕ → Bool) (ref : ℤ) : Bool :=
  mem[(ref + 75).toNat]?.getD 0 = 0 ∧
    openForReadOnly ((mem.drop (ref + 12).toNat).takeWhile (· ≠ 0)) (natOf mem (ref + 8) 4)

/-! ### What has to lie inside the copy -/

/-- The number of bytes of the header that are read before the references. -/
def headerBytes : ℕ :=
  if SessionField.udpControlProtocolVersion.value mem / 65536 ≠ udpProtocolVersionMajor then 72
  else if SessionField.udpControlMaxPlaintextPacketSize.value mem < 4096 then 96
  else if SessionField.udpControlMaxEncryptedPacketSize.value mem < 1400 then 98
  else 124

/-- The search for a required reference stays inside the copy: the id of each reference up to the
first match, and the version where the id is the right one. -/
def SearchWithin (refs : List ℤ) (req : RequiredShmRef) : Prop :=
  UpTo (isRef mem req ·) (fun ref =>
    Within mem ref 4 ∧ (natOf mem ref 4 = req.id → Within mem (ref + 4) 4)) refs

/-- An area is empty or lies inside the copy. -/
def AreaWithin (i n : ℕ) : Prop :=
  n = 0 ∨ i + n ≤ mem.length

/-- A public key stays inside the copy: its offset, its header, and if it is accepted the key and the
signature. -/
def KeyWithin (i : Fin 8) : Prop :=
  let hdr := (SessionField.publicKeyOffset i).value mem
  let key := hdr + natOf mem (hdr + 4) 2
  let signature := hdr + natOf mem (hdr + 8) 2
  126 + 2 * i ≤ mem.length ∧ (hdr ≠ 0 → fits mem hdr 10 1 → hdr + 6 ≤ mem.length ∧
    (fits mem key (natOf mem (hdr + 2) 2) 1 → hdr + 10 ≤ mem.length ∧
      (fits mem signature (natOf mem (hdr + 6) 2) 1 →
        AreaWithin mem key (natOf mem (hdr + 2) 2) ∧
        AreaWithin mem signature (natOf mem (hdr + 6) 2))))

/-- All that is read lies inside the copy. -/
def ReadsWithin (coreSessionId : ℕ) (openForReadOnly : List UInt8 → ℕ → Bool) : Prop :=
  headerBytes mem ≤ mem.length ∧ (headerAccepted mem →
    UpTo (refOf mem (refsOf mem) · = none) (SearchWithin mem (refsOf mem)) requiredShmRefs ∧
    ∀ selected, requiredShmRefs.mapM (refOf mem (refsOf mem)) = some selected →
      coreSessionId = SessionField.sessionId.value mem →
        UpTo (keyRejected mem ·) (KeyWithin mem) (List.finRange 8) ∧
        ((∀ i, keyRejected mem i = false) →
          UpTo (¬ opens mem openForReadOnly ·) (Within mem · 76) selected))

end

/-! ### The loops -/

variable {mem : List UInt8}

theorem SessionField.yields_read (f : SessionField) :
    Yields (f.read mem) (f.offset + f.size ≤ mem.length) (f.value mem) := by
  refine (yields_natAt mem f.offset f.size).congr ?_ rfl
  rw [Within]
  omega

/-- A field in a copy that is long enough. -/
theorem SessionField.read_eq (f : SessionField) (h : f.offset + f.size ≤ mem.length) :
    f.read mem = .ok (f.value mem) :=
  (f.yields_read _).mpr ⟨h, rfl⟩

theorem isWithinSessionBuffer_eq (h : 20 ≤ mem.length) (offset size count : ℕ) :
    isWithinSessionBuffer mem offset size count = .ok (fits mem offset size count) := by
  rw [isWithinSessionBuffer, SessionField.read_eq .sessionDataSize h]
  rfl

/-- **The search for a required reference.** -/
theorem yields_findRef (req : RequiredShmRef) (refs : List ℤ) :
    Yields (findRef mem req refs) (SearchWithin mem refs req) (refOf mem refs req) := by
  induction refs with
  | nil => exact Yields.pure none
  | cons ref refs ih =>
      rw [findRef]
      refine ((yields_natAt mem ref 4).bind fun _ => Yields.ite
        (fun _ => (yields_natAt mem (ref + 4) 4).bind fun _ => Yields.ite
          (fun _ => Yields.pure (some ref)) fun _ => ih) fun _ => ih).congr
          ?_ ?_
      · rw [SearchWithin, UpTo, and_assoc]
        refine and_congr_right fun _ => ?_
        by_cases hid : natOf mem ref 4 = req.id
        · simp [isRef, hid, SearchWithin]
        · simp [isRef, hid, SearchWithin]
      · rw [refOf, List.find?_cons]
        by_cases hid : natOf mem ref 4 = req.id
        · cases hversion : isShmVersionCompatible req.version
            (UInt32.ofNat (natOf mem (ref + 4) 4)) <;> simp [isRef, hid, hversion, refOf]
        · simp [isRef, hid, refOf]

/-- What the search finds has been read. -/
theorem SearchWithin.of_refOf {refs : List ℤ} {req : RequiredShmRef} {ref : ℤ}
    (h : SearchWithin mem refs req) (href : refOf mem refs req = some ref) :
    Within mem ref 4 ∧ natOf mem ref 4 = req.id := by
  induction refs with
  | nil => simp [refOf] at href
  | cons r refs ih =>
      rw [refOf, List.find?_cons] at href
      cases hr : isRef mem req r with
      | true =>
          rw [hr] at href
          obtain rfl := Option.some.inj href
          have hid := (of_decide_eq_true hr).1
          exact ⟨h.1.1, hid⟩
      | false =>
          rw [hr] at href
          exact ih (h.2 (by simp [hr])) href

/-- **The search for all required references.** -/
theorem yields_selectRefs (refs : List ℤ) (reqs : List RequiredShmRef) (selected : List ℤ) :
    Yields (selectRefs mem refs reqs selected)
      (UpTo (refOf mem refs · = none) (SearchWithin mem refs) reqs)
      ((reqs.mapM (refOf mem refs)).map (selected ++ ·)) := by
  induction reqs generalizing selected with
  | nil => exact (Yields.pure (some selected)).congr Iff.rfl (by simp)
  | cons req reqs ih =>
      rw [selectRefs]
      cases href : refOf mem refs req with
      | none =>
          have hfind : Yields (findRef mem req refs) (SearchWithin mem refs req)
            (refOf mem refs req) := yields_findRef req refs
          rw [href] at hfind
          refine (hfind.then (b := none) ?_).congr ?_ ?_
          · exact fun _ => rfl
          · simp [UpTo, href]
          · simp [List.mapM_cons, href]
      | some ref =>
          have hfind : Yields (findRef mem req refs) (SearchWithin mem refs req)
            (refOf mem refs req) := yields_findRef req refs
          rw [href] at hfind
          refine (hfind.bind fun _ => ih (selected ++ [ref])).congr ?_ ?_
          · simp [UpTo, href]
          · cases hrest : reqs.mapM (refOf mem refs) <;> simp [List.mapM_cons, href, hrest]

/-- A C string that ends inside the memory. -/
theorem cString_eq {i j : ℤ} (h0 : 0 ≤ i) (hij : i ≤ j) (hj : byteAt mem j = .ok 0) :
    cString mem i = .ok ((mem.drop i.toNat).takeWhile (· ≠ 0)) := by
  have hget := (byteAt_eq_ok_iff.mp hj).2
  have hmem : (0 : UInt8) ∈ mem.drop i.toNat := by
    refine List.mem_of_getElem? (i := j.toNat - i.toNat) ?_
    rw [List.getElem?_drop, ← hget]
    congr 1
    omega
  rw [cString, if_pos ⟨h0, hmem⟩]
  rfl

/-- **A block is opened** when its reference lies inside the copy. -/
theorem yields_openBlock {openForReadOnly : List UInt8 → ℕ → Bool} {ref : ℤ} (h : 0 ≤ ref) :
    Yields (openBlock openForReadOnly mem ref) (Within mem ref 76) (opens mem openForReadOnly ref) := by
  have hwithin : Within mem ref 76 ↔ Within mem (ref + 75) 1 := by
    simp only [Within]
    omega
  rw [openBlock]
  refine ((yields_byteAt mem (ref + 75)).then fun hin => ?_).congr hwithin rfl
  by_cases hlast : mem[(ref + 75).toNat]?.getD 0 = 0
  · have hbyte : byteAt mem (ref + 75) = .ok 0 := (yields_byteAt _ _ _).mpr ⟨hin, hlast.symm⟩
    have hpath : cString mem (ref + 12) = .ok ((mem.drop (ref + 12).toNat).takeWhile (· ≠ 0)) :=
      cString_eq (by omega) (by omega) hbyte
    have hsize : Within mem (ref + 8) 4 := (hwithin.mpr hin).mono (by omega) (by omega)
    rw [if_neg (not_not.mpr hlast), hpath, ok_bind, natAt_eq hsize, ok_bind, opens]
    simp [hlast]
  · rw [if_pos hlast, opens]
    simp [hlast]

/-- **The blocks are opened** up to the first one that cannot be. -/
theorem yields_openBlocks (openForReadOnly : List UInt8 → ℕ → Bool) {refs : List ℤ}
    (h : ∀ ref ∈ refs, Within mem ref 4 ∧ natOf mem ref 4 ∈ requiredShmRefs.map RequiredShmRef.id) :
    Yields (openBlocks openForReadOnly mem refs)
      (UpTo (¬ opens mem openForReadOnly ·) (Within mem · 76) refs)
      (refs.all (opens mem openForReadOnly)) := by
  induction refs with
  | nil => exact Yields.pure true
  | cons ref refs ih =>
      obtain ⟨hid, hknown⟩ := h ref List.mem_cons_self
      have hrest := ih fun r hr => h r (List.mem_cons_of_mem ref hr)
      have hopen : Yields (openBlock openForReadOnly mem ref) _ _ := yields_openBlock hid.1
      rw [openBlocks, natAt_eq hid, ok_bind, if_pos hknown]
      cases hcan : opens mem openForReadOnly ref with
      | true =>
          rw [hcan] at hopen
          refine (hopen.bind fun _ => hrest).congr ?_ ?_
          · simp [UpTo, hcan]
          · simp [hcan]
      | false =>
          rw [hcan] at hopen
          refine (hopen.then (b := false) ?_).congr ?_ ?_
          · exact fun _ => rfl
          · simp [UpTo, hcan]
          · simp [hcan]

theorem yields_copyArea (i n : ℕ) :
    Yields (copyArea mem i n) (AreaWithin mem i n) ((mem.drop i).take n) := by
  rw [copyArea, AreaWithin]
  by_cases hn : n = 0
  · rw [if_pos hn]
    exact (Yields.pure []).congr (by simp [hn]) (by simp [hn])
  · rw [if_neg hn]
    refine (yields_bytesAt mem i n).congr ?_ rfl
    simp only [hn, false_or, Within]
    omega

/-- The key of a header that is accepted. -/
def keyOf (mem : List UInt8) (hdr : ℕ) : SecureSessionMethod where
  method := natOf mem hdr 2
  publicKey := (mem.drop (hdr + natOf mem (hdr + 4) 2)).take (natOf mem (hdr + 2) 2)
  signature := (mem.drop (hdr + natOf mem (hdr + 8) 2)).take (natOf mem (hdr + 6) 2)

theorem yields_copyKey {hdr : ℕ} (h : hdr + 10 ≤ mem.length) :
    Yields (copyKey mem hdr (natOf mem (hdr + 2) 2) (natOf mem (hdr + 4) 2) (natOf mem (hdr + 6) 2)
        (natOf mem (hdr + 8) 2))
      (AreaWithin mem (hdr + natOf mem (hdr + 4) 2) (natOf mem (hdr + 2) 2) ∧
        AreaWithin mem (hdr + natOf mem (hdr + 8) 2) (natOf mem (hdr + 6) 2))
      (keyOf mem hdr) := by
  have hmethod : Within mem hdr 2 := by
    rw [Within]
    omega
  rw [copyKey, natAt_eq hmethod, ok_bind]
  exact (yields_copyArea _ _).bind fun _ => (yields_copyArea _ _).then fun _ => rfl

/-- **A public key is copied** if its header is accepted. -/
theorem yields_resolveKey (h : 20 ≤ mem.length) {i : Fin 8}
    (hhdr : (SessionField.publicKeyOffset i).value mem ≠ 0) (hoffset : 126 + 2 * i.val ≤ mem.length) :
    Yields (resolveKey mem ((SessionField.publicKeyOffset i).value mem)) (KeyWithin mem i)
      (if keyRejected mem i then none else
        some (keyOf mem ((SessionField.publicKeyOffset i).value mem))) := by
  rw [KeyWithin, keyRejected]
  generalize (SessionField.publicKeyOffset i).value mem = hdr at hhdr ⊢
  simp only [hoffset, hhdr, ne_eq, not_false_eq_true, true_and, forall_const]
  rw [resolveKey, isWithinSessionBuffer_eq h, ok_bind]
  cases hfits : fits mem hdr 10 1 with
  | false => exact (Yields.pure none).congr (by simp) (by simp)
  | true =>
      have hkey : hdr + 6 ≤ mem.length ↔ Within mem (hdr + 4) 2 ∧ Within mem (hdr + 2) 2 := by
        simp only [Within]
        omega
      have hsignature : hdr + 10 ≤ mem.length ↔ Within mem (hdr + 8) 2 ∧ Within mem (hdr + 6) 2 := by
        simp only [Within]
        omega
      rw [if_neg (by simp)]
      simp only [forall_const, true_and]
      refine yields_natAt_natAt hkey fun _ => ?_
      rw [isWithinSessionBuffer_eq h, ok_bind]
      cases hfitsKey : fits mem (hdr + natOf mem (hdr + 4) 2) (natOf mem (hdr + 2) 2) 1 with
      | false => exact (Yields.pure none).congr (by simp) (by simp)
      | true =>
          rw [if_neg (by simp)]
          simp only [forall_const, true_and]
          refine yields_natAt_natAt hsignature fun hlength => ?_
          rw [isWithinSessionBuffer_eq h, ok_bind]
          cases hfitsSignature :
              fits mem (hdr + natOf mem (hdr + 8) 2) (natOf mem (hdr + 6) 2) 1 with
          | false => exact (Yields.pure none).congr (by simp) (by simp)
          | true =>
              rw [if_neg (by simp)]
              refine ((yields_copyKey hlength).then (b := some (keyOf mem hdr)) fun _ => rfl).congr ?_ ?_
              · simp
              · simp

/-- The keys of the headers that are in use. -/
def keysOf (mem : List UInt8) (is : List (Fin 8)) : List SecureSessionMethod :=
  (is.filter fun i => (SessionField.publicKeyOffset i).value mem ≠ 0).map fun i =>
    keyOf mem ((SessionField.publicKeyOffset i).value mem)

/-- **The public keys are copied** up to the first header that is rejected. -/
theorem yields_resolveKeys (h : 20 ≤ mem.length) (is : List (Fin 8))
    (options : List SecureSessionMethod) :
    Yields (resolveKeys mem is options) (UpTo (keyRejected mem ·) (KeyWithin mem) is)
      (if is.any (keyRejected mem) then none else some (options ++ keysOf mem is)) := by
  induction is generalizing options with
  | nil => exact (Yields.pure (some options)).congr Iff.rfl (by simp [keysOf])
  | cons i is ih =>
      have hread : Yields ((SessionField.publicKeyOffset i).read mem) (126 + 2 * i.val ≤ mem.length)
          ((SessionField.publicKeyOffset i).value mem) := by
        refine (SessionField.publicKeyOffset i).yields_read.congr ?_ rfl
        simp only [SessionField.offset, SessionField.size]
        omega
      have hseq : Yields (resolveKeys mem (i :: is) options)
          (126 + 2 * i.val ≤ mem.length ∧ UpTo (keyRejected mem ·) (KeyWithin mem) (i :: is))
          (if (i :: is).any (keyRejected mem) then none else some (options ++ keysOf mem (i :: is))) := by
        rw [resolveKeys]
        refine hread.bind fun hoffset => ?_
        by_cases hhdr : (SessionField.publicKeyOffset i).value mem = 0
        · rw [if_pos hhdr]
          have hrejected : keyRejected mem i = false := by simp [keyRejected, hhdr]
          refine (ih options).congr ?_ ?_
          · simp [UpTo, hrejected, KeyWithin, hhdr, hoffset]
          · simp [hrejected, keysOf, hhdr]
        · rw [if_neg hhdr]
          have hkey := yields_resolveKey h hhdr hoffset
          cases hrejected : keyRejected mem i with
          | true =>
              rw [hrejected, if_pos rfl] at hkey
              refine (hkey.then (b := none) ?_).congr ?_ ?_
              · exact fun _ => rfl
              · simp [UpTo, hrejected]
              · simp [hrejected]
          | false =>
              rw [hrejected, if_neg Bool.false_ne_true] at hkey
              refine (hkey.bind fun _ => ih _).congr ?_ ?_
              · simp [UpTo, hrejected]
              · simp [hrejected, keysOf, hhdr]
      exact hseq.congr ⟨fun hall => ⟨hall.1.1, hall⟩, fun hall => hall.2⟩ rfl

/-! ### The whole -/

theorem yields_maxPacketSizesTooSmall :
    Yields (maxPacketSizesTooSmall mem)
      (96 ≤ mem.length ∧ (4096 ≤ SessionField.udpControlMaxPlaintextPacketSize.value mem →
        98 ≤ mem.length))
      (SessionField.udpControlMaxPlaintextPacketSize.value mem < 4096 ∨
        SessionField.udpControlMaxEncryptedPacketSize.value mem < 1400) := by
  rw [maxPacketSizesTooSmall]
  refine SessionField.udpControlMaxPlaintextPacketSize.yields_read.bind fun _ => ?_
  by_cases hsmall : SessionField.udpControlMaxPlaintextPacketSize.value mem < 4096
  · rw [if_pos hsmall]
    exact (Yields.pure true).congr (by simp [hsmall]) (by simp [hsmall])
  · rw [if_neg hsmall]
    refine (SessionField.udpControlMaxEncryptedPacketSize.yields_read.then
      (b := decide (SessionField.udpControlMaxEncryptedPacketSize.value mem < 1400))
      fun _ => rfl).congr ?_ ?_
    · simp [SessionField.offset, SessionField.size, not_lt.mp hsmall]
    · simp [hsmall]

theorem yields_shmRefs : Yields (shmRefs mem) (124 ≤ mem.length)
    (if fits mem (SessionField.shmReferenceOffset.value mem) (SessionField.shmReferenceSize.value mem)
      (SessionField.shmReferenceCount.value mem) then some (refsOf mem) else none) := by
  rw [shmRefs]
  refine SessionField.shmReferenceOffset.yields_read.then fun h => ?_
  have h124 : 124 ≤ mem.length := h
  have hsize : SessionField.shmReferenceSize.offset + SessionField.shmReferenceSize.size ≤
      mem.length := le_trans (by decide) h124
  have hcount : SessionField.shmReferenceCount.offset + SessionField.shmReferenceCount.size ≤
      mem.length := le_trans (by decide) h124
  rw [SessionField.read_eq _ hsize, ok_bind, SessionField.read_eq _ hcount, ok_bind,
    isWithinSessionBuffer_eq (by omega), ok_bind]
  split
  · rfl
  · rfl

/-- **Behind the selection of the blocks.** -/
theorem safe_openSelected {coreSessionId : ℕ} {openForReadOnly : List UInt8 → ℕ → Bool}
    {selected : List ℤ} (h : 124 ≤ mem.length) (hselected : ∀ ref ∈ selected,
      Within mem ref 4 ∧ natOf mem ref 4 ∈ requiredShmRefs.map RequiredShmRef.id) :
    Safe (openSelected coreSessionId openForReadOnly mem selected) ↔
      (coreSessionId = SessionField.sessionId.value mem →
        UpTo (keyRejected mem ·) (KeyWithin mem) (List.finRange 8) ∧
        ((∀ i, keyRejected mem i = false) →
          UpTo (¬ opens mem openForReadOnly ·) (Within mem · 76) selected)) := by
  have hend : ∀ f ∈ [SessionField.sessionId, .udpControlMaxPlaintextPacketSize,
      .udpControlMaxEncryptedPacketSize], f.offset + f.size ≤ mem.length := by
    intro f hf
    have h124 : f.offset + f.size ≤ 124 := by
      revert f
      decide
    omega
  have hid := SessionField.read_eq .sessionId (hend _ (by simp))
  rw [openSelected, hid, ok_bind]
  by_cases hsession : coreSessionId = SessionField.sessionId.value mem
  · rw [if_neg (not_not.mpr hsession), SessionField.read_eq _ (hend _ (by simp)), ok_bind,
      SessionField.read_eq _ (hend _ (by simp)), ok_bind, imp_iff_right hsession]
    have hlength : 20 ≤ mem.length := by omega
    have hkeys := yields_resolveKeys hlength (List.finRange 8) []
    rw [resolveSecureSessionOptions, bind_assoc, hkeys.safe_bind]
    refine and_congr_right fun _ => ?_
    by_cases hrejected : (List.finRange 8).any (keyRejected mem) = true
    · rw [if_pos hrejected]
      obtain ⟨i, -, hi⟩ := List.any_eq_true.mp hrejected
      exact iff_of_true (safe_ok _) fun hall => absurd hi (by simp [hall i])
    · rw [if_neg hrejected]
      have hall : ∀ i, keyRejected mem i = false := by simpa using hrejected
      dsimp only
      rw [imp_iff_right hall, hid, ok_bind, pure_eq_ok, ok_bind]
      dsimp only
      rw [(yields_openBlocks openForReadOnly hselected).safe_bind]
      refine and_iff_left ?_
      split
      · exact safe_ok _
      · exact safe_ok _
  · rw [if_pos hsession]
    exact iff_of_true (safe_ok _) fun h => absurd h hsession

/-- What the search for all required references has selected. -/
theorem mem_of_mapM_refOf {refs : List ℤ} {reqs : List RequiredShmRef} {selected : List ℤ}
    (h : reqs.mapM (refOf mem refs) = some selected) :
    (∀ req ∈ reqs, refOf mem refs req ≠ none) ∧
      ∀ ref ∈ selected, ∃ req ∈ reqs, refOf mem refs req = some ref := by
  induction reqs generalizing selected with
  | nil =>
      obtain rfl : [] = selected := Option.some.inj h
      simp
  | cons req reqs ih =>
      rw [List.mapM_cons, Option.bind_eq_bind, Option.bind_eq_some_iff] at h
      obtain ⟨ref, href, h⟩ := h
      rw [Option.bind_eq_bind, Option.bind_eq_some_iff] at h
      obtain ⟨rest, hrest, h⟩ := h
      obtain rfl := Option.some.inj h
      obtain ⟨hfound, hmem⟩ := ih hrest
      refine ⟨?_, fun r hr => ?_⟩
      · intro req' hreq'
        rcases List.mem_cons.mp hreq' with rfl | hreq'
        · simp [href]
        · exact hfound req' hreq'
      · rcases List.mem_cons.mp hr with rfl | hr
        · exact ⟨req, List.mem_cons_self, href⟩
        · obtain ⟨req', hreq', href'⟩ := hmem r hr
          exact ⟨req', List.mem_cons_of_mem req hreq', href'⟩

/-- A reference in the table of a header that is large enough for it. -/
theorem within_of_mem_refsOf (hsize : SessionField.sessionDataSize.value mem ≤ mem.length)
    (hentry : 76 ≤ SessionField.shmReferenceSize.value mem)
    (hoffset : SessionField.shmReferenceOffset.value mem < 2147483648)
    (hfits : fits mem (SessionField.shmReferenceOffset.value mem)
      (SessionField.shmReferenceSize.value mem) (SessionField.shmReferenceCount.value mem) = true)
    {ref : ℤ} (href : ref ∈ refsOf mem) : Within mem ref 76 := by
  obtain ⟨i, hi, rfl⟩ := List.mem_map.mp href
  rw [List.mem_range] at hi
  rw [wrap32_of_range (by omega) (by omega)]
  have hend := of_decide_eq_true hfits
  have hturn : SessionField.shmReferenceSize.value mem * i + SessionField.shmReferenceSize.value mem ≤
      SessionField.shmReferenceSize.value mem * SessionField.shmReferenceCount.value mem := by
    rw [← Nat.mul_succ]
    exact Nat.mul_le_mul_left _ hi
  have hin : SessionField.shmReferenceOffset.value mem + SessionField.shmReferenceSize.value mem * i +
      76 ≤ mem.length := by omega
  exact ⟨by positivity, by exact_mod_cast hin⟩

/-- A public key in a header whose size is that of the copy. -/
theorem keyWithin_of_size (hlength : 140 ≤ mem.length)
    (hsize : SessionField.sessionDataSize.value mem ≤ mem.length) (i : Fin 8) : KeyWithin mem i := by
  have hfits : ∀ {offset size : ℕ}, fits mem offset size 1 = true → offset + size ≤ mem.length := by
    intro offset size h
    have hend := of_decide_eq_true h
    omega
  refine ⟨by omega, fun _ hhdr => ⟨?_, fun hkey => ⟨hfits hhdr, fun hsignature => ?_⟩⟩⟩
  · have hend := hfits hhdr
    omega
  · exact ⟨Or.inr (hfits hkey), Or.inr (hfits hsignature)⟩

/-- **Well-formed headers**: a complete header whose size is not larger than the copy, with entries
of at least the size of a reference behind an offset that is not negative. -/
theorem readsWithin_of_wellFormed (hlength : 140 ≤ mem.length)
    (hsize : SessionField.sessionDataSize.value mem ≤ mem.length)
    (hentry : 76 ≤ SessionField.shmReferenceSize.value mem)
    (hoffset : SessionField.shmReferenceOffset.value mem < 2147483648) (coreSessionId : ℕ)
    (openForReadOnly : List UInt8 → ℕ → Bool) : ReadsWithin mem coreSessionId openForReadOnly := by
  have hbytes : headerBytes mem ≤ 124 := by
    rw [headerBytes]
    split_ifs <;> omega
  refine ⟨by omega, fun haccepted => ?_⟩
  have hfits := (of_decide_eq_true haccepted).2.2.2
  have hrefs : ∀ ref ∈ refsOf mem, Within mem ref 76 := fun ref href =>
    within_of_mem_refsOf hsize hentry hoffset hfits href
  refine ⟨UpTo.of_forall fun req _ => UpTo.of_forall fun ref href => ?_, fun selected hselected _ => ?_⟩
  · exact ⟨(hrefs ref href).mono (by omega) (by omega),
      fun _ => (hrefs ref href).mono (by omega) (by omega)⟩
  · refine ⟨UpTo.of_forall fun i _ => keyWithin_of_size hlength hsize i,
      fun _ => UpTo.of_forall fun ref href => ?_⟩
    obtain ⟨req, -, hreq⟩ := (mem_of_mapM_refOf hselected).2 ref href
    exact hrefs ref (List.mem_of_find?_eq_some hreq)

/-- **When the copy is read only inside**: exactly when what the code looks at, following the sizes
and offsets in the copy, lies inside. -/
theorem tryOpeningSession_safe_iff (coreSessionId : ℕ) (openForReadOnly : List UInt8 → ℕ → Bool) (mem : List UInt8) :
    Safe (tryOpeningSession coreSessionId openForReadOnly mem) ↔
      ReadsWithin mem coreSessionId openForReadOnly := by
  rw [tryOpeningSession, SessionField.udpControlProtocolVersion.yields_read.safe_bind, ReadsWithin]
  by_cases hversion :
      SessionField.udpControlProtocolVersion.value mem / 65536 ≠ udpProtocolVersionMajor
  · rw [if_pos hversion, headerBytes, if_pos hversion]
    have hrefused : headerAccepted mem = false := by simp [headerAccepted, hversion]
    simp [hrefused, safe_ok, SessionField.offset, SessionField.size]
  rw [if_neg hversion, yields_maxPacketSizesTooSmall.safe_bind, headerBytes, if_neg hversion]
  by_cases hplaintext : SessionField.udpControlMaxPlaintextPacketSize.value mem < 4096
  · have hrefused : headerAccepted mem = false := by simp [headerAccepted, hplaintext]
    simp [hrefused, safe_ok, SessionField.offset, SessionField.size, hplaintext]
    omega
  by_cases hencrypted : SessionField.udpControlMaxEncryptedPacketSize.value mem < 1400
  · have hrefused : headerAccepted mem = false := by simp [headerAccepted, hencrypted]
    simp [hrefused, safe_ok, SessionField.offset, SessionField.size, hplaintext, hencrypted]
    omega
  have hsizes : ¬ (decide (SessionField.udpControlMaxPlaintextPacketSize.value mem < 4096 ∨
      SessionField.udpControlMaxEncryptedPacketSize.value mem < 1400) = true) := by
    simp [hplaintext, hencrypted]
  rw [if_neg hsizes, if_neg hplaintext, if_neg hencrypted, yields_shmRefs.safe_bind]
  have hbytes : ∀ c : Prop, SessionField.udpControlProtocolVersion.offset +
      SessionField.udpControlProtocolVersion.size ≤ mem.length ∧
      (96 ≤ mem.length ∧ (4096 ≤ SessionField.udpControlMaxPlaintextPacketSize.value mem →
        98 ≤ mem.length)) ∧ 124 ≤ mem.length ∧ c ↔ 124 ≤ mem.length ∧ c := by
    intro c
    have h72 : SessionField.udpControlProtocolVersion.offset +
      SessionField.udpControlProtocolVersion.size = 72 := rfl
    constructor
    · exact fun h => h.2.2
    · exact fun h => ⟨by omega, ⟨by omega, fun _ => by omega⟩, h⟩
  rw [hbytes]
  refine and_congr_right fun h124 => ?_
  cases htable : fits mem (SessionField.shmReferenceOffset.value mem)
      (SessionField.shmReferenceSize.value mem) (SessionField.shmReferenceCount.value mem) with
  | false =>
      have hrefused : headerAccepted mem = false := by simp [headerAccepted, htable]
      rw [if_neg Bool.false_ne_true]
      exact iff_of_true (safe_ok _) fun h => by simp [hrefused] at h
  | true =>
      have haccepted : headerAccepted mem = true := by
        simp [headerAccepted, htable, not_not.mp hversion, not_lt.mp hplaintext, not_lt.mp hencrypted]
      rw [if_pos rfl, imp_iff_right haccepted]
      dsimp only
      rw [(yields_selectRefs _ _ _).safe_bind]
      refine and_congr_right fun hsearch => ?_
      cases hselected : requiredShmRefs.mapM (refOf mem (refsOf mem)) with
      | none => exact iff_of_true (safe_ok _) (by simp)
      | some selected =>
          obtain ⟨hfound, hmem⟩ := mem_of_mapM_refOf hselected
          have hwithin : ∀ ref ∈ selected,
              Within mem ref 4 ∧ natOf mem ref 4 ∈ requiredShmRefs.map RequiredShmRef.id := by
            intro ref href
            obtain ⟨req, hreq, hreq'⟩ := hmem ref href
            obtain ⟨hin, hid⟩ := (hsearch.forall hfound req hreq).of_refOf hreq'
            exact ⟨hin, hid ▸ List.mem_map_of_mem hreq⟩
          rw [Option.map_some, List.nil_append]
          dsimp only
          rw [safe_openSelected h124 hwithin]
          simp

/-- **A header of 16 bytes** of an active session: the fields behind them are outside the copy. -/
theorem not_tryOpeningSession_safe : ¬ ∀ (coreSessionId : ℕ)
    (openForReadOnly : List UInt8 → ℕ → Bool) (mem : List UInt8),
    Safe (tryOpeningSession coreSessionId openForReadOnly mem) := by
  intro h
  obtain ⟨result, hresult⟩ := h 1 (fun _ _ => false) (toLe 4 0 ++ toLe 4 1 ++ toLe 4 1 ++ toLe 4 0)
  have hstop : tryOpeningSession 1 (fun _ _ => false) (toLe 4 0 ++ toLe 4 1 ++ toLe 4 1 ++ toLe 4 0)
      = .error (.outOfBounds 68) := rfl
  rw [hstop] at hresult
  cases hresult

end ScApi
