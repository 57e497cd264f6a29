import ScApi.AesKeys
import ScApi.GcmStandard
import ScApi.SecureSession

/-!
# What a secure session sends

The key of a session is expanded for AES by `SC_API_gcm_setkey`. Each encryption adds the cipher's output
for the counters behind its IV to the data, and the tag is made of the additional data and the encrypted
ones. The IVs count up from the first one, the counters behind them from one, and AES is a permutation of
blocks: in a whole session no output of the cipher is used twice, and none is the block that the tags
multiply by.

## Main results

* `encrypt_sealed`: what one encryption leaves in a packet.
* `session_stream`: what a session leaves in its packets, and that no output of the cipher is used twice.
-/

open Bytes Buffer

namespace ScApi

namespace Gcm

/-- A key that AES is expanded for. -/
def Key.ofAes (ctx : Aes.Context) : Key :=
  Key.ofCipher (Aes.initKeygenTables.cipher ctx) fun _ => rfl

/-- `SC_API_gcm_setkey`, with the tables if they were initialized. -/
def gcmSetkey (initialized : Bool) (key : List UInt8) (keysize : ℕ) : Option Context :=
  (Aes.setkey (if initialized then some Aes.initKeygenTables else none) key keysize).map
    fun ctx => { key := Key.ofAes ctx }

/-- The inputs of the cipher for an IV and some data. -/
def cipherInputs (iv : List UInt8) (dataLen : ℕ) : List (List UInt8) :=
  (List.range ((dataLen + 15) / 16 + 1)).map fun i => iv ++ beBytes (i + 1)

theorem ofLe_beBytes {n : ℕ} (h : n < 2 ^ 32) : ofLe (beBytes n).reverse = n := by
  rw [beBytes, List.reverse_reverse, ofLe_toLe_of_lt h]

theorem beBytes_injective {m n : ℕ} (hm : m < 2 ^ 32) (hn : n < 2 ^ 32) (h : beBytes m = beBytes n) :
    m = n := by
  rw [← ofLe_beBytes hm, h, ofLe_beBytes hn]

theorem nodup_cipherInputs (iv : List UInt8) {dataLen : ℕ} (h : dataLen < 2 ^ 29) :
    (cipherInputs iv dataLen).Nodup := by
  refine List.Nodup.map_on (fun i hi j hj heq => ?_) List.nodup_range
  have hi := List.mem_range.mp hi
  have hj := List.mem_range.mp hj
  have hcounter := beBytes_injective (by omega) (by omega) (List.append_cancel_left heq)
  omega

/-- The inputs for an IV start with it, and are never zero. -/
theorem mem_cipherInputs {iv block : List UInt8} (hiv : iv.length = 12) {dataLen : ℕ}
    (hlen : dataLen < 2 ^ 29) (h : block ∈ cipherInputs iv dataLen) :
    block.length = 16 ∧ block.take 12 = iv ∧ block ≠ List.replicate 16 0 := by
  obtain ⟨i, hi, rfl⟩ := List.mem_map.mp h
  have hi := List.mem_range.mp hi
  refine ⟨by rw [List.length_append, hiv, length_beBytes], List.take_left' hiv, fun hzero => ?_⟩
  have hcounter : beBytes (i + 1) = beBytes 0 := by
    have hdrop := congrArg (List.drop 12) hzero
    rw [List.drop_left' hiv] at hdrop
    exact hdrop
  exact absurd (beBytes_injective (by omega) (by decide) hcounter) (Nat.succ_ne_zero i)

end Gcm

namespace Security

namespace SecureSession

variable {s : SecureSession} {gcmCtx : Gcm.Context} {key : List UInt8} {ctx : Aes.Context}

/-- The additional data that an encryption reads, from the packet that the IV was copied into. -/
def EncryptCall.aad (call : EncryptCall) (iv : List UInt8) : List UInt8 :=
  ((overwrite call.packet call.regions.iv iv).drop call.regions.aad).take call.regions.aadLen

/-- The data that an encryption reads. -/
def EncryptCall.data (call : EncryptCall) : List UInt8 :=
  (call.packet.drop call.regions.data).take call.regions.dataLen

/-- What an encryption leaves in a packet. -/
structure Sealed (key : Gcm.Key) (call : EncryptCall) (e : Encrypted) : Prop where
  length : e.packet.length = call.packet.length
  iv : (e.packet.drop call.regions.iv).take ivLen = e.gcmIv
  data : (e.packet.drop call.regions.data).take call.regions.dataLen
    = Gcm.xor (Gcm.keystream key e.gcmIv 2 ((call.regions.dataLen + 15) / 16)) call.data
  tag : ∃ s : List UInt8, s.length = 16 ∧
    Gcm.element s = Gcm.ghash (Gcm.element (key.cipher (List.replicate 16 0)))
      (Gcm.padded (call.aad e.gcmIv)
        ++ Gcm.padded ((e.packet.drop call.regions.data).take call.regions.dataLen)
        ++ Gcm.lengthBlock (call.aad e.gcmIv) call.data) ∧
    (e.packet.drop call.regions.tag).take tagLen
      = (Gcm.xor (key.cipher (e.gcmIv ++ Gcm.beBytes 1)) s).take tagLen
  rest : ∀ k w, (k + w ≤ call.regions.iv ∨ call.regions.iv + ivLen ≤ k) →
    (k + w ≤ call.regions.data ∨ call.regions.data + call.regions.dataLen ≤ k) →
    (k + w ≤ call.regions.tag ∨ call.regions.tag + tagLen ≤ k) →
    (e.packet.drop k).take w = (call.packet.drop k).take w

/-- A loop over data does not change the key. -/
theorem key_updateLoop (n : ℕ) (gcmCtx : Gcm.Context) (input : List UInt8) :
    (Gcm.updateLoop n gcmCtx input).2.key = gcmCtx.key := by
  induction n generalizing gcmCtx input with
  | zero => rfl
  | succ n ih =>
      rw [Gcm.updateLoop]
      split_ifs
      · rfl
      · exact ih _ _

theorem gcmCtx_handleIV (random : RandomIv) (s : SecureSession) :
    (s.handleIV random).2.gcmCtx = s.gcmCtx := by
  rw [handleIV]
  split_ifs <;> rfl

theorem key_encrypt {size : ℕ} (r : Regions size) (random : RandomIv) (packet : List UInt8) :
    (s.encrypt r random packet).session.gcmCtx.key = s.gcmCtx.key := by
  rw [← gcmCtx_handleIV random s]
  exact key_updateLoop _ _ _

/-- An encryption runs GCM once, on the packet that the IV was copied into. -/
theorem encrypt_overwrites {size : ℕ} (r : Regions size) (random : RandomIv) (packet : List UInt8) :
    ∃ copied result, copied = overwrite packet r.iv (s.handleIV random).1 ∧
      result = Gcm.cryptAndTag (s.handleIV random).2.gcmCtx .encrypt ((copied.drop r.iv).take ivLen)
        ((copied.drop r.aad).take r.aadLen) ((copied.drop r.data).take r.dataLen) tagLen ∧
      (s.encrypt r random packet).packet = overwrite (overwrite copied r.data result.1) r.tag result.2 :=
  ⟨_, _, rfl, rfl, rfl⟩

/-- **What one encryption leaves in a packet.** -/
theorem encrypt_sealed (hkey : s.gcmCtx.key = Gcm.Key.ofAes ctx) (hiv : s.iv = [] ∨ s.iv.length = ivLen)
    (call : EncryptCall) (haad : call.regions.aadLen < 2 ^ 29) (hdata : call.regions.dataLen < 2 ^ 29) :
    Sealed (Gcm.Key.ofAes ctx) call (s.encrypt call.regions call.random call.packet) := by
  obtain ⟨hgcmIv, hread, -⟩ := @encrypt_gcmIv s _ call.regions call.random call.packet rfl hiv
  have hlen := @length_handleIV s call.random hiv
  obtain ⟨copied, result, hcopied, hresult, hpacket⟩ :=
    @encrypt_overwrites s _ call.regions call.random call.packet
  obtain ⟨e, he⟩ : ∃ e, e = s.encrypt call.regions call.random call.packet := ⟨_, rfl⟩
  rw [← he] at hgcmIv hread hpacket ⊢
  rw [← hgcmIv] at hcopied hlen
  have hcopiedLen : copied.length = call.packet.length := by
    rw [hcopied, length_overwrite (by rw [hlen]; exact call.regions.iv_le)]
  have hivRead : (copied.drop call.regions.iv).take ivLen = e.gcmIv := by
    have hle := call.regions.iv_le
    rw [hcopied, read_overwrite_self (by omega) hlen]
  have hdataRead : (copied.drop call.regions.data).take call.regions.dataLen = call.data := by
    rw [hcopied, read_overwrite_apart (by rw [hlen]; exact call.regions.iv_le)
      (by rw [hlen]; exact call.regions.iv_data.symm)]
    rfl
  have haadRead : (copied.drop call.regions.aad).take call.regions.aadLen = call.aad e.gcmIv := by
    rw [hcopied]
    rfl
  rw [hivRead, hdataRead, haadRead] at hresult
  have hsizes := And.intro call.regions.iv_le (And.intro call.regions.aad_le
    (And.intro call.regions.data_le call.regions.tag_le))
  have hdataLen : call.data.length = call.regions.dataLen := by
    rw [EncryptCall.data, List.length_take, List.length_drop]
    omega
  have haadLen : (call.aad e.gcmIv).length = call.regions.aadLen := by
    rw [← haadRead, List.length_take, List.length_drop]
    omega
  have hctxKey : (s.handleIV call.random).2.gcmCtx.key
      = Gcm.Key.ofCipher (Aes.initKeygenTables.cipher ctx) fun _ => rfl := by
    rw [gcmCtx_handleIV]
    exact hkey
  obtain ⟨t, htlen, houtput, ht, htag⟩ := Gcm.cryptAndTag_eq hctxKey .encrypt hlen (haadLen ▸ haad)
    (hdataLen ▸ hdata) (show tagLen ≤ 16 by decide)
  have hlens := Gcm.length_cryptAndTag (s.handleIV call.random).2.gcmCtx .encrypt e.gcmIv
    (call.aad e.gcmIv) call.data (show tagLen ≤ 16 by decide)
  rw [← hresult] at houtput ht htag hlens
  rw [hdataLen] at hlens houtput
  rw [hctxKey] at houtput
  have hmidLen : (overwrite copied call.regions.data result.1).length = call.packet.length := by
    rw [length_overwrite (by omega), hcopiedLen]
  have hdataBack : (e.packet.drop call.regions.data).take call.regions.dataLen = result.1 := by
    rw [hpacket, read_overwrite_apart (by omega) (by rw [hlens.2]; exact call.regions.data_tag),
      read_overwrite_self (by omega) hlens.1]
  have htagBack : (e.packet.drop call.regions.tag).take tagLen = result.2 := by
    rw [hpacket, read_overwrite_self (by omega) hlens.2]
  refine ⟨?_, hread, hdataBack.trans houtput, ⟨t, htlen, ?_, htagBack.trans htag⟩, fun k w hk hk' hk'' => ?_⟩
  · rw [hpacket, length_overwrite (by omega), hmidLen]
  · rw [hdataBack]
    exact ht
  · rw [hpacket, read_overwrite_apart (by omega) (by rwa [hlens.2]),
      read_overwrite_apart (by omega) (by rwa [hlens.1]), hcopied,
      read_overwrite_apart (by omega) (by rwa [hlen])]

/-- The inputs of the cipher for the packets of a session. -/
def sessionInputs (calls : List EncryptCall) (es : List Encrypted) : List (List UInt8) :=
  (calls.zip es).flatMap fun p => Gcm.cipherInputs p.2.gcmIv p.1.regions.dataLen

/-- What the encryptions of a session leave in the packets. -/
theorem sealed_encryptAll (calls : List EncryptCall)
    (hlens : ∀ call ∈ calls, call.regions.aadLen < 2 ^ 29 ∧ call.regions.dataLen < 2 ^ 29) :
    ∀ s : SecureSession, s.gcmCtx.key = Gcm.Key.ofAes ctx → (s.iv = [] ∨ s.iv.length = ivLen) →
      List.Forall₂ (Sealed (Gcm.Key.ofAes ctx)) calls (encryptAll s calls) ∧
        ∀ e ∈ encryptAll s calls, e.gcmIv.length = ivLen := by
  induction calls with
  | nil => exact fun _ _ _ => ⟨.nil, fun e he => absurd he List.not_mem_nil⟩
  | cons call calls ih =>
      intro s hkey hiv
      obtain ⟨hgcmIv, -, hsession⟩ := @encrypt_gcmIv s _ call.regions call.random call.packet rfl hiv
      have hlen := @length_handleIV s call.random hiv
      obtain ⟨hrest, hivs⟩ := ih (fun call hcall => hlens call (List.mem_cons_of_mem _ hcall)) _
        ((key_encrypt call.regions call.random call.packet).trans hkey) (Or.inr (hsession ▸ hlen))
      obtain ⟨haad, hdata⟩ := hlens call List.mem_cons_self
      refine ⟨.cons (encrypt_sealed hkey hiv call haad hdata) hrest, fun e he => ?_⟩
      rcases List.mem_cons.mp he with rfl | he
      · rw [hgcmIv, hlen]
      · exact hivs e he

/-- The IVs of a session differ. -/
theorem nodup_gcmIvs (gcmCtx : Gcm.Context) {calls : List EncryptCall} (hn : calls.length ≤ 2 ^ 96) :
    ((encryptAll { gcmCtx } calls).map (·.gcmIv)).Nodup := by
  cases calls with
  | nil => exact List.nodup_nil
  | cons call calls =>
      obtain ⟨hgcmIv, -, hsession⟩ := @encrypt_gcmIv { gcmCtx } _ call.regions call.random
        call.packet rfl (.inl rfl)
      have hivs : (encryptAll { gcmCtx } (call :: calls)).map (·.gcmIv)
          = (List.range (calls.length + 1)).map fun k => Counter.increment^[k] call.random.1 := by
        rw [encryptAll, List.map_cons, hgcmIv, ivs_encryptAll call.random.2 calls _ hsession,
          List.range_succ_eq_map, List.map_cons, List.map_map]
        rfl
      rw [hivs]
      refine Counter.nodup_iterate _ (hn.trans (le_of_eq ?_))
      rw [call.random.2, ivLen]
      norm_num

/-- **No input of the cipher is used twice**, and none is zero. -/
theorem nodup_sessionInputs {calls : List EncryptCall} {es : List Encrypted}
    (hlens : ∀ call ∈ calls, call.regions.dataLen < 2 ^ 29) (hivs : ∀ e ∈ es, e.gcmIv.length = ivLen)
    (hlength : es.length = calls.length) (hnodup : (es.map (·.gcmIv)).Nodup) :
    (List.replicate 16 0 :: sessionInputs calls es).Nodup ∧
      ∀ block ∈ sessionInputs calls es, block.length = 16 := by
  have hparts : ∀ p ∈ calls.zip es, ∀ block ∈ Gcm.cipherInputs p.2.gcmIv p.1.regions.dataLen,
      block.length = 16 ∧ block.take 12 = p.2.gcmIv ∧ block ≠ List.replicate 16 0 := fun p hp _ hblock => by
    obtain ⟨hcall, he⟩ := List.of_mem_zip hp
    exact Gcm.mem_cipherInputs (hivs _ he) (hlens _ hcall) hblock
  have hdistinct : ((calls.zip es).map (·.2.gcmIv)).Nodup := by
    have hsnd := congrArg (List.map (·.gcmIv)) (List.map_snd_zip hlength.le)
    rw [List.map_map] at hsnd
    rw [← hsnd] at hnodup
    exact hnodup
  refine ⟨List.nodup_cons.mpr ⟨fun hzero => ?_, List.nodup_flatMap.mpr ⟨fun p hp => ?_, ?_⟩⟩,
    fun block hblock => ?_⟩
  · obtain ⟨p, hp, hblock⟩ := List.mem_flatMap.mp hzero
    exact (hparts p hp _ hblock).2.2 rfl
  · exact Gcm.nodup_cipherInputs _ (hlens _ (List.of_mem_zip hp).1)
  · refine (List.pairwise_map.mp hdistinct).imp_of_mem fun hp hq hne block hblock hblock' => hne ?_
    rw [← (hparts _ hp block hblock).2.1, (hparts _ hq block hblock').2.1]
  · obtain ⟨p, hp, hblock⟩ := List.mem_flatMap.mp hblock
    exact (hparts p hp _ hblock).1

/-- **What a session leaves in its packets**, with a key for AES: no output of the cipher is used twice,
and none is the block that the tags multiply by. -/
theorem session_stream (hset : Gcm.gcmSetkey true key key.length = some gcmCtx) {calls : List EncryptCall}
    (hn : calls.length ≤ 2 ^ 96)
    (hlens : ∀ call ∈ calls, call.regions.aadLen < 2 ^ 29 ∧ call.regions.dataLen < 2 ^ 29) :
    List.Forall₂ (Sealed gcmCtx.key) calls (encryptAll { gcmCtx } calls) ∧
      (gcmCtx.key.cipher (List.replicate 16 0)
        :: (sessionInputs calls (encryptAll { gcmCtx } calls)).map gcmCtx.key.cipher).Nodup := by
  obtain ⟨ctx, hctx, rfl⟩ := Option.map_eq_some_iff.mp hset
  rw [if_pos rfl] at hctx
  obtain ⟨hsealed, hivs⟩ := sealed_encryptAll calls hlens { gcmCtx := { key := Gcm.Key.ofAes ctx } } rfl (.inl rfl)
  obtain ⟨hnodup, hblocks⟩ := nodup_sessionInputs (fun call hcall => (hlens call hcall).2) hivs
    hsealed.length_eq.symm (nodup_gcmIvs _ hn)
  refine ⟨hsealed, ?_⟩
  have hinputs : ∀ block ∈ List.replicate 16 0 :: sessionInputs calls
      (encryptAll { gcmCtx := { key := Gcm.Key.ofAes ctx } } calls), block.length = 16 := by
    intro block hblock
    rcases List.mem_cons.mp hblock with rfl | hblock
    · exact List.length_replicate
    · exact hblocks block hblock
  exact List.Nodup.map_on (fun a ha b hb heq =>
    Aes.cipher_injective hctx (hinputs a ha) (hinputs b hb) heq) hnodup


theorem session_stream_two :
    ∃ gcmCtx, Gcm.gcmSetkey true (List.replicate 16 7) 16 = some gcmCtx ∧
      (gcmCtx.key.cipher (List.replicate 16 0)
        :: (sessionInputs [zeroCall, zeroCall] (encryptAll { gcmCtx } [zeroCall, zeroCall])).map
          gcmCtx.key.cipher).Nodup :=
  ⟨_, rfl, (@session_stream _ (List.replicate 16 7) rfl [zeroCall, zeroCall] (by decide)
    (by simp [zeroCall])).2⟩

end SecureSession

end Security

end ScApi
