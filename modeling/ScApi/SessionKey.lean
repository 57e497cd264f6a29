import ScApi.SessionStream
import ScApi.Sha512Standard

/-!
# The key of a secure session

The key is made of the hash of a salt, the name of the controller and the shared secret of the key
exchange. A receiver that knows the same three, and computes the hash as the standard has it, opens every
packet that the session encrypts, with the IV that it finds in the packet.

## Main results

* `key_eq`: the key is the front of the standard's hash.
* `encrypt_opens`: an encrypted packet opens.
* `session_opens`: every packet of a session opens under the key that the receiver derives.
-/

open Bytes Buffer

namespace ScApi.Security

/-- The salt of a session. -/
def salt (apiSessionId : UInt32) : List UInt8 :=
  [(apiSessionId >>> 0 &&& 0xff).toUInt8, (apiSessionId >>> 8 &&& 0xff).toUInt8,
    (apiSessionId >>> 16 &&& 0xff).toUInt8, (apiSessionId >>> 24 &&& 0xff).toUInt8,
    0x54, 0x5f, 0x52, 0x59]

/-- `generateSymmetricEncryptionKey`, with what is in the buffer of the `sha512` before. -/
def generateSymmetricEncryptionKey (buffer : List UInt8) (apiSessionId : UInt32)
    (controllerIdName sharedSecret : List UInt8) : List UInt8 :=
  let ctx := Sha512.init buffer
  let ctx := Sha512.add (salt apiSessionId) ctx
  let ctx := Sha512.add controllerIdName ctx
  let ctx := Sha512.add sharedSecret ctx
  (Sha512.final ctx).take 16

/-- `SecureSession::generateSymmetricEncryptionKey`: the session that it leaves, if the key could be
expanded. -/
def SecureSession.generateKey (initialized : Bool) (buffer : List UInt8) (apiSessionId : UInt32)
    (controllerIdName sharedSecret : List UInt8) (s : SecureSession) : Option SecureSession :=
  let key := generateSymmetricEncryptionKey buffer apiSessionId controllerIdName sharedSecret
  (Gcm.gcmSetkey initialized key key.length).map fun gcmCtx => { s with gcmCtx }

/-- The key that a receiver derives by the standard. -/
def standardKey (apiSessionId : UInt32) (controllerIdName sharedSecret : List UInt8) : List UInt8 :=
  (Sha512.standardHash (toLe 4 apiSessionId.toNat ++ [0x54, 0x5f, 0x52, 0x59] ++ controllerIdName
    ++ sharedSecret)).take 16

/-- What a receiver with a key reads from a packet: the data, if the tag is accepted. -/
def opened (key : Gcm.Key) {size : ℕ} (r : Regions size) (packet : List UInt8) : Option (List UInt8) :=
  Gcm.authDecrypt { key } ((packet.drop r.iv).take ivLen) ((packet.drop r.aad).take r.aadLen)
    ((packet.drop r.data).take r.dataLen) ((packet.drop r.tag).take tagLen)

/-- The additional data are not encrypted, and not where the tag goes. -/
def Regions.AadApart {size : ℕ} (r : Regions size) : Prop :=
  (r.aad + r.aadLen ≤ r.data ∨ r.data + r.dataLen ≤ r.aad) ∧
    (r.aad + r.aadLen ≤ r.tag ∨ r.tag + tagLen ≤ r.aad)

instance {size : ℕ} (r : Regions size) : Decidable r.AadApart :=
  inferInstanceAs (Decidable (_ ∧ _))

/-! ### The key -/

theorem salt_eq (apiSessionId : UInt32) :
    salt apiSessionId = toLe 4 apiSessionId.toNat ++ [0x54, 0x5f, 0x52, 0x59] := by
  have hbyte : ∀ (s : UInt32) (k : ℕ), s.toNat = k → k < 32 →
      (apiSessionId >>> s &&& 0xff).toUInt8 = UInt8.ofNat (apiSessionId.toNat / 2 ^ k) := by
    intro s k hs hk
    rw [← UInt8.toNat_inj, UInt32.toNat_toUInt8, UInt32.toNat_and, UInt32.toNat_shiftRight, hs,
      Nat.mod_eq_of_lt hk, Nat.shiftRight_eq_div_pow, UInt8.toNat_ofNat']
    exact congrArg (· % 2 ^ 8) (Nat.and_two_pow_sub_one_eq_mod _ 8) |>.trans (Nat.mod_mod _ _)
  simp only [salt, toLe, List.cons_append, List.nil_append, Nat.div_div_eq_div_mul]
  rw [hbyte 0 0 rfl (by decide), hbyte 8 8 rfl (by decide), hbyte 16 16 rfl (by decide),
    hbyte 24 24 rfl (by decide), Nat.pow_zero, Nat.div_one]
  rfl

/-- **The key is the front of the standard's hash.** -/
theorem key_eq {buffer : List UInt8} (hbuffer : buffer.length = Sha512.blockSize) (apiSessionId : UInt32)
    {controllerIdName sharedSecret : List UInt8}
    (hlength : controllerIdName.length + sharedSecret.length < 2 ^ 70) :
    generateSymmetricEncryptionKey buffer apiSessionId controllerIdName sharedSecret
      = standardKey apiSessionId controllerIdName sharedSecret := by
  have habsorbed := Sha512.absorbed_foldl [salt apiSessionId, controllerIdName, sharedSecret]
    (Sha512.absorbed_init hbuffer)
  have hmessage : [] ++ [salt apiSessionId, controllerIdName, sharedSecret].flatten
      = toLe 4 apiSessionId.toNat ++ [0x54, 0x5f, 0x52, 0x59] ++ controllerIdName ++ sharedSecret := by
    rw [List.nil_append, List.flatten_cons, List.flatten_cons, List.flatten_cons, List.flatten_nil,
      List.append_nil, salt_eq, List.append_assoc _ controllerIdName]
  rw [hmessage] at habsorbed
  have hfinal := Sha512.final_eq habsorbed (by
    simp only [List.length_append, length_toLe, List.length_cons, List.length_nil]
    omega)
  exact congrArg (List.take 16) hfinal

/-- A key of 16 bytes is expanded. -/
theorem exists_gcmSetkey {key : List UInt8} (h : key.length = 16) :
    ∃ gcmCtx, Gcm.gcmSetkey true key key.length = some gcmCtx := by
  rw [h]
  exact ⟨_, rfl⟩

/-! ### Opening a packet -/

namespace SecureSession

/-- **An encrypted packet opens.** -/
theorem encrypt_opens {s : SecureSession} (hiv : s.iv = [] ∨ s.iv.length = ivLen) (call : EncryptCall)
    (haad : call.regions.AadApart) :
    opened s.gcmCtx.key call.regions (s.encrypt call.regions call.random call.packet).packet
      = some call.data := by
  obtain ⟨hgcmIv, hread, -⟩ := @encrypt_gcmIv s _ call.regions call.random call.packet rfl hiv
  have hlen := @length_handleIV s call.random hiv
  obtain ⟨copied, result, hcopied, hresult, hpacket⟩ :=
    @encrypt_overwrites s _ call.regions call.random call.packet
  obtain ⟨e, he⟩ : ∃ e, e = s.encrypt call.regions call.random call.packet := ⟨_, rfl⟩
  rw [← he] at hgcmIv hread hpacket ⊢
  have hsizes := And.intro call.regions.iv_le (And.intro call.regions.aad_le
    (And.intro call.regions.data_le call.regions.tag_le))
  have hcopiedLen : copied.length = call.packet.length := by
    rw [hcopied, length_overwrite (by rw [hlen]; exact call.regions.iv_le)]
  have hivRead : (copied.drop call.regions.iv).take ivLen = e.gcmIv := by
    rw [hcopied, read_overwrite_self (by omega) hlen, hgcmIv]
  have hdataRead : (copied.drop call.regions.data).take call.regions.dataLen = call.data := by
    rw [hcopied, read_overwrite_apart (by rw [hlen]; exact call.regions.iv_le)
      (by rw [hlen]; exact call.regions.iv_data.symm)]
    rfl
  rw [hivRead, hdataRead] at hresult
  obtain ⟨aad, haadRead⟩ : ∃ aad, aad = (copied.drop call.regions.aad).take call.regions.aadLen :=
    ⟨_, rfl⟩
  rw [← haadRead] at hresult
  have hdataLen : call.data.length = call.regions.dataLen := by
    rw [EncryptCall.data, List.length_take, List.length_drop]
    omega
  have hlens := Gcm.length_cryptAndTag (s.handleIV call.random).2.gcmCtx .encrypt e.gcmIv aad call.data
    (show tagLen ≤ 16 by decide)
  rw [← hresult, hdataLen] at hlens
  have hmidLen : (overwrite copied call.regions.data result.1).length = call.packet.length := by
    rw [length_overwrite (by omega), hcopiedLen]
  have haadBack : (e.packet.drop call.regions.aad).take call.regions.aadLen = aad := by
    rw [hpacket, read_overwrite_apart (by omega) (by rw [hlens.2]; exact haad.2),
      read_overwrite_apart (by omega) (by rw [hlens.1]; exact haad.1), haadRead]
  have hdataBack : (e.packet.drop call.regions.data).take call.regions.dataLen = result.1 := by
    rw [hpacket, read_overwrite_apart (by omega) (by rw [hlens.2]; exact call.regions.data_tag),
      read_overwrite_self (by omega) hlens.1]
  have htagBack : (e.packet.drop call.regions.tag).take tagLen = result.2 := by
    rw [hpacket, read_overwrite_self (by omega) hlens.2]
  have hkey : ({ key := s.gcmCtx.key } : Gcm.Context).key = (s.handleIV call.random).2.gcmCtx.key := by
    rw [gcmCtx_handleIV]
  rw [opened, hread, haadBack, hdataBack, htagBack, Gcm.authDecrypt_congr hkey, hresult]
  exact Gcm.authDecrypt_cryptAndTag _ _ _ _ (by decide)

/-- The packets of a session open under its key. -/
theorem encryptAll_opens {calls : List EncryptCall} (haad : ∀ call ∈ calls, call.regions.AadApart)
    {key : Gcm.Key} {s : SecureSession} (hkey : s.gcmCtx.key = key)
    (hiv : s.iv = [] ∨ s.iv.length = ivLen) :
    List.Forall₂ (fun call e => opened key call.regions e.packet = some call.data) calls
      (encryptAll s calls) := by
  induction calls generalizing s with
  | nil => exact .nil
  | cons call calls ih =>
      obtain ⟨-, -, hsession⟩ := @encrypt_gcmIv s _ call.regions call.random call.packet rfl hiv
      have hlen := @length_handleIV s call.random hiv
      have hopens := encrypt_opens hiv call (haad call List.mem_cons_self)
      rw [hkey] at hopens
      exact .cons hopens (ih (fun call hcall => haad call (List.mem_cons_of_mem _ hcall))
        ((key_encrypt call.regions call.random call.packet).trans hkey) (.inr (hsession ▸ hlen)))

/-- **Every packet of a session opens** for a receiver that derives the key from the same session id, name
and secret, by the standard. -/
theorem session_opens {buffer : List UInt8} (hbuffer : buffer.length = Sha512.blockSize)
    (apiSessionId : UInt32) {controllerIdName sharedSecret : List UInt8}
    (hlength : controllerIdName.length + sharedSecret.length < 2 ^ 70) {s : SecureSession}
    (hiv : s.iv = [] ∨ s.iv.length = ivLen) {calls : List EncryptCall}
    (haad : ∀ call ∈ calls, call.regions.AadApart) :
    ∃ s' receiver, s.generateKey true buffer apiSessionId controllerIdName sharedSecret = some s' ∧
      Gcm.gcmSetkey true (standardKey apiSessionId controllerIdName sharedSecret) 16 = some receiver ∧
      List.Forall₂ (fun call e => opened receiver.key call.regions e.packet = some call.data) calls
        (encryptAll s' calls) := by
  have hkey := key_eq hbuffer apiSessionId hlength
  have hsize : (standardKey apiSessionId controllerIdName sharedSecret).length = 16 := by
    rw [← hkey]
    rfl
  obtain ⟨receiver, hreceiver⟩ := exists_gcmSetkey hsize
  refine ⟨{ s with gcmCtx := receiver }, receiver, ?_, hsize ▸ hreceiver, encryptAll_opens haad rfl hiv⟩
  rw [generateKey, hkey, hreceiver]
  rfl

theorem session_opens_two : ∃ s' receiver,
    (⟨[], { key := plainKey }⟩ : SecureSession).generateKey true (List.replicate 128 9) 5 [65, 66]
        (List.replicate 32 1) = some s' ∧
      Gcm.gcmSetkey true (standardKey 5 [65, 66] (List.replicate 32 1)) 16 = some receiver ∧
      List.Forall₂ (fun call e => opened receiver.key call.regions e.packet = some call.data)
        [zeroCall, zeroCall] (encryptAll s' [zeroCall, zeroCall]) :=
  session_opens List.length_replicate 5 (by decide) (.inl rfl)
    (List.forall_mem_cons.mpr ⟨by decide, List.forall_mem_singleton.mpr (by decide)⟩)

end SecureSession

end ScApi.Security
