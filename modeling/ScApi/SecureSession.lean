import ScApi.Gcm
import ScApi.Lib.Buffer

/-!
# Secure sessions

A `SecureSession` encrypts parts of packets. Its first IV is drawn at random, and every further one is
the one before it with one added. GCM starts with the bytes that were copied into the packet.

## Main results

* `encrypt_gcmIv`: the IV in the packet is the one that GCM started with.
* `ivs_distinct`: up to `2 ^ 96` encryptions use different IVs.
-/

open Bytes Buffer

namespace ScApi.Security

/-- `k_iv_len`. -/
def ivLen : ℕ := 12

/-- `k_tag_len`. -/
def tagLen : ℕ := 12

/-- The bytes that the random numbers are drawn as. -/
def RandomIv : Type := { l : List UInt8 // l.length = ivLen }

/-- The pointers that `encrypt` is given, as offsets in a packet. The IV, the data and the tag lie in
the packet and do not overlap. -/
structure Regions (size : ℕ) where
  iv : ℕ
  aad : ℕ
  aadLen : ℕ
  data : ℕ
  dataLen : ℕ
  tag : ℕ
  iv_le : iv + ivLen ≤ size
  aad_le : aad + aadLen ≤ size
  data_le : data + dataLen ≤ size
  tag_le : tag + tagLen ≤ size
  iv_data : iv + ivLen ≤ data ∨ data + dataLen ≤ iv
  iv_tag : iv + ivLen ≤ tag ∨ tag + tagLen ≤ iv
  data_tag : data + dataLen ≤ tag ∨ tag + tagLen ≤ data

/-- A `SecureSession`. -/
structure SecureSession where
  iv : List UInt8 := []
  gcmCtx : Gcm.Context

/-- What an encryption leaves, and the IV that `SC_API_gcm_start` was given. -/
structure Encrypted where
  packet : List UInt8
  session : SecureSession
  gcmIv : List UInt8

namespace SecureSession

/-- `SecureSession::handleIV`. -/
def handleIV (random : RandomIv) (s : SecureSession) : List UInt8 × SecureSession :=
  if s.iv ≠ [] then
    let iv := Counter.increment s.iv
    (iv, { s with iv })
  else
    (random.1, { s with iv := random.1 })

/-- `SecureSession::encrypt`. -/
def encrypt {size : ℕ} (r : Regions size) (random : RandomIv) (packet : List UInt8)
    (s : SecureSession) : Encrypted :=
  let (bytes, s) := s.handleIV random
  let packet := overwrite packet r.iv bytes
  let iv := (packet.drop r.iv).take ivLen
  let ctx := Gcm.start s.gcmCtx .encrypt iv ((packet.drop r.aad).take r.aadLen)
  let (output, ctx) := Gcm.update ctx ((packet.drop r.data).take r.dataLen)
  let packet := overwrite packet r.data output
  let packet := overwrite packet r.tag (Gcm.finish ctx tagLen)
  { packet, session := { s with gcmCtx := ctx }, gcmIv := iv }

/-- A call of `encrypt`, with the random bytes that are drawn if there is no IV yet. -/
structure EncryptCall where
  packet : List UInt8
  regions : Regions packet.length
  random : RandomIv

/-- Calls one after the other. -/
def encryptAll : SecureSession → List EncryptCall → List Encrypted
  | _, [] => []
  | s, call :: calls =>
      let e := s.encrypt call.regions call.random call.packet
      e :: encryptAll e.session calls

variable {s : SecureSession} {size : ℕ} {r : Regions size} {random : RandomIv} {packet : List UInt8}

/-- The IV that `handleIV` leaves is the one it returns. -/
theorem iv_handleIV (random : RandomIv) (s : SecureSession) :
    (s.handleIV random).2.iv = (s.handleIV random).1 := by
  rw [handleIV]
  split_ifs <;> rfl

theorem length_handleIV (h : s.iv = [] ∨ s.iv.length = ivLen) :
    (s.handleIV random).1.length = ivLen := by
  rw [handleIV]
  split_ifs with hiv
  · rw [Counter.length_increment]
    exact h.resolve_left hiv
  · exact random.2

/-- What is read from a region that a write does not touch. -/
theorem read_overwrite_apart {l new : List UInt8} {i k w : ℕ} (hi : i + new.length ≤ l.length)
    (h : k + w ≤ i ∨ i + new.length ≤ k) :
    ((overwrite l i new).drop k).take w = (l.drop k).take w := by
  rcases h with h | h
  · exact read_overwrite_of_le (by omega) h
  · rw [drop_overwrite_of_le hi h]

/-- **The IV in the packet** is the one that GCM started with, and the one that the session keeps. -/
theorem encrypt_gcmIv (hsize : packet.length = size) (h : s.iv = [] ∨ s.iv.length = ivLen) :
    (s.encrypt r random packet).gcmIv = (s.handleIV random).1 ∧
      (((s.encrypt r random packet).packet.drop r.iv).take ivLen
        = (s.encrypt r random packet).gcmIv) ∧
      (s.encrypt r random packet).session.iv = (s.handleIV random).1 := by
  have hlen := @length_handleIV s random h
  have hiv := r.iv_le
  have hdata := r.data_le
  have htag := r.tag_le
  obtain ⟨copied, hcopied⟩ : ∃ copied, copied = overwrite packet r.iv (s.handleIV random).1 :=
    ⟨_, rfl⟩
  have hcopiedLen : copied.length = size := by
    rw [hcopied, length_overwrite (by omega), hsize]
  have hread : (copied.drop r.iv).take ivLen = (s.handleIV random).1 := by
    rw [hcopied, read_overwrite_self (by omega) hlen]
  obtain ⟨result, hresult⟩ : ∃ result, result = Gcm.cryptAndTag (s.handleIV random).2.gcmCtx .encrypt
      ((copied.drop r.iv).take ivLen) ((copied.drop r.aad).take r.aadLen)
      ((copied.drop r.data).take r.dataLen) tagLen := ⟨_, rfl⟩
  have hgcmIv : (s.encrypt r random packet).gcmIv = (copied.drop r.iv).take ivLen := by
    rw [hcopied]
    rfl
  have hpacket : (s.encrypt r random packet).packet
      = overwrite (overwrite copied r.data result.1) r.tag result.2 := by
    rw [hresult, hcopied]
    rfl
  have hlens : result.1.length = r.dataLen ∧ result.2.length = tagLen := by
    have h := Gcm.length_cryptAndTag (s.handleIV random).2.gcmCtx .encrypt
      ((copied.drop r.iv).take ivLen) ((copied.drop r.aad).take r.aadLen)
      ((copied.drop r.data).take r.dataLen) (show tagLen ≤ 16 by decide)
    rw [← hresult, List.length_take, List.length_drop] at h
    exact ⟨by omega, h.2⟩
  refine ⟨hgcmIv.trans hread, ?_, iv_handleIV random s⟩
  have hencLen : (overwrite copied r.data result.1).length = size := by
    rw [length_overwrite (by omega), hcopiedLen]
  rw [hgcmIv, hpacket, read_overwrite_apart (by omega) (by rw [hlens.2]; exact r.iv_tag),
    read_overwrite_apart (by omega) (by rw [hlens.1]; exact r.iv_data)]

/-! ### Runs -/

/-- The IVs of a run are one counter, incremented again and again. -/
theorem ivs_encryptAll {iv : List UInt8} (h : iv.length = ivLen) (calls : List EncryptCall) :
    ∀ s : SecureSession, s.iv = iv → (encryptAll s calls).map (·.gcmIv)
      = (List.range calls.length).map fun k => Counter.increment^[k + 1] iv := by
  induction calls generalizing iv with
  | nil => exact fun _ _ => rfl
  | cons call calls ih =>
      intro s hs
      have hne : s.iv ≠ [] := by
        rw [hs]
        exact List.ne_nil_of_length_pos (h ▸ (by decide : 0 < ivLen))
      have hhandle : (s.handleIV call.random).1 = Counter.increment iv := by
        rw [handleIV, if_pos hne, hs]
      obtain ⟨hgcmIv, -, hsession⟩ := @encrypt_gcmIv s _ call.regions call.random call.packet rfl
        (.inr (hs ▸ h))
      rw [hhandle] at hgcmIv hsession
      rw [encryptAll, List.map_cons, List.length_cons, List.range_succ_eq_map, List.map_cons,
        List.map_map, hgcmIv, ih (by rw [Counter.length_increment, h]) _ hsession]
      rfl

theorem packets_encryptAll (calls : List EncryptCall) :
    ∀ s : SecureSession, s.iv = [] ∨ s.iv.length = ivLen →
      List.Forall₂ (fun call e => (e.packet.drop call.regions.iv).take ivLen = e.gcmIv) calls
        (encryptAll s calls) := by
  induction calls with
  | nil => exact fun _ _ => .nil
  | cons call calls ih =>
      intro s hs
      obtain ⟨-, hpacket, hsession⟩ :=
        @encrypt_gcmIv s _ call.regions call.random call.packet rfl hs
      refine .cons hpacket (ih _ (.inr ?_))
      rw [hsession, length_handleIV hs]

/-- **Up to `2 ^ 96` encryptions of one session use different IVs**, and each of them is in its
packet. -/
theorem ivs_distinct (gcmCtx : Gcm.Context) {calls : List EncryptCall} (hn : calls.length ≤ 2 ^ 96) :
    ((encryptAll { gcmCtx } calls).map (·.gcmIv)).Nodup ∧
      List.Forall₂ (fun call e => (e.packet.drop call.regions.iv).take ivLen = e.gcmIv) calls
        (encryptAll { gcmCtx } calls) := by
  refine ⟨?_, packets_encryptAll calls _ (.inl rfl)⟩
  cases calls with
  | nil => exact List.nodup_nil
  | cons call calls =>
      obtain ⟨hgcmIv, -, hsession⟩ := @encrypt_gcmIv { gcmCtx } _ call.regions call.random
        call.packet rfl (.inl rfl)
      have hfirst : (handleIV call.random { gcmCtx }).1 = call.random.1 := rfl
      rw [hfirst] at hgcmIv hsession
      -- the first IV is drawn, and the others follow it
      have hivs : (encryptAll { gcmCtx } (call :: calls)).map (·.gcmIv)
          = (List.range (calls.length + 1)).map fun k => Counter.increment^[k] call.random.1 := by
        rw [encryptAll, List.map_cons, hgcmIv, ivs_encryptAll call.random.2 calls _ hsession,
          List.range_succ_eq_map, List.map_cons, List.map_map]
        rfl
      rw [hivs]
      refine Counter.nodup_iterate _ (hn.trans (le_of_eq ?_))
      rw [call.random.2, ivLen]
      norm_num

/-- A key that leaves blocks as they are. -/
def plainKey : Gcm.Key where
  cipher block := resize 0 block 16
  mult := id
  length_cipher block := length_resize 0 block 16

/-- A call for a packet of zeros with an IV, 16 bytes of data and a tag. -/
def zeroCall : EncryptCall where
  packet := List.replicate 40 0
  regions := {
    iv := 0, aad := 12, aadLen := 0, data := 12, dataLen := 16, tag := 28
    iv_le := by decide, aad_le := by decide, data_le := by decide, tag_le := by decide
    iv_data := by decide, iv_tag := by decide, data_tag := by decide }
  random := ⟨List.replicate 12 255, rfl⟩

theorem ivs_distinct_two :
    ((encryptAll { gcmCtx := { key := plainKey } } [zeroCall, zeroCall]).map (·.gcmIv)).Nodup :=
  (ivs_distinct { key := plainKey } (show [zeroCall, zeroCall].length ≤ 2 ^ 96 by decide)).1

end SecureSession

end ScApi.Security
