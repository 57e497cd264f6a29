import ScApi.BsonBuilding
import ScApi.BuilderReuse

/-!
# Command requests

A `CommandRequest` is a builder with a vector of its own. `initialize` begins a command in it,
`initializeFrom` a command whose document goes on from another one, and `finalize` ends the command
and gives the vector away. A request that is used again is as good as a new one exactly when its
builder is.

## Main results

* `related_initializeWith`, `related_closeCommand`: requests with something left make the same calls.
* `initializeWith_new`: a new request begins its command.
* `equivalent_iff_reusable`: when a builder, and when a request, can be used again.
-/

open Bytes Buffer Bson Relating

namespace ScApi

namespace CommandRequest

/-- `buffer_.resize(size)` for the vector of the request. -/
def resizeBuffer (platform : Platform) (size : ℕ) (b : BsonBuilder) : BsonBuilder :=
  let capacity := b.container.getD 0
  { b with
    buffer := resize 0 b.buffer size
    container := some (if capacity < size then platform.grow capacity size else capacity) }

/-- `BsonBuilder::initialize(&buffer_)` after the vector has been resized. -/
def restart (platform : Platform) (size : ℕ) (b : BsonBuilder) : BsonBuilder :=
  let b := resizeBuffer platform size b
  b.initializeVector b.buffer (b.container.getD 0) 0 0 platform

/-- The common part of the two functions below. -/
def initializeWith (platform : Platform) (size : ℕ) (service : List UInt8)
    (beginCommand : BsonBuilder → Build (Bool × BsonBuilder)) (b : BsonBuilder) :
    Build BsonBuilder := do
  let b := restart platform size b
  let (_, b) ← b.docAddElement platform (ascii "00type") (.i32 1)
  let (_, b) ← b.docAddElement platform (ascii "service") (.string service)
  let (_, b) ← b.docBeginSubDoc platform (ascii "cmd")
  let (_, b) ← beginCommand b
  pure b

/-- `CommandRequest::initialize`. -/
def initializeCommand (platform : Platform) (service command : List UInt8) :
    BsonBuilder → Build BsonBuilder :=
  initializeWith platform 100 service (BsonBuilder.docBeginSubDoc platform command)

/-- `CommandRequest::initializeFrom`. A size that is no size of a vector is refused by it. -/
def initializeFrom (platform : Platform) (service command content : List UInt8) (b : BsonBuilder) :
    Build BsonBuilder :=
  let contentSize := toI32 (content.take 4)
  if wrap32 (100 + contentSize) < 0 then
    throw .lengthError
  else
    initializeWith platform (wrap32 (100 + contentSize)).toNat service
      (BsonBuilder.docBeginSubDocFrom platform command content) b

/-- `CommandRequest::finalize`: the bytes of the vector, which is empty from then on. -/
def finalize (platform : Platform) (cmdId : BitVec 32) (b : BsonBuilder) :
    Build (List UInt8 × BsonBuilder) := do
  let b ← b.endDocument
  let b ← b.endDocument
  let (_, b) ← b.docAddElement platform (ascii "user-data") (.i32 cmdId)
  let (place, b) ← b.finish
  let size := (place.map Prod.snd).getD 0
  if size < 0 then
    throw .lengthError
  else
    pure (resize 0 b.buffer size.toNat, { b with buffer := [], container := some 0 })

/-- A new request with the vector of another one. -/
def newOn (b : BsonBuilder) : BsonBuilder :=
  { buffer := b.buffer, container := b.container }

/-- What the calls on a request return. -/
def returned (platform : Platform) (calls : List BuilderCall) (request : Build BsonBuilder) :
    Build (List BuilderOutput) :=
  (request >>= performAll platform (calls.map .call)).map Prod.fst

/-- The bytes of a request that is finalized after some calls. -/
def finalized (platform : Platform) (calls : List BuilderCall) (cmdId : BitVec 32)
    (request : Build BsonBuilder) : Build (List UInt8) :=
  (request >>= fun b => performAll platform (calls.map .call) b >>= fun p =>
    finalize platform cmdId p.2).map Prod.fst

/-- **Whatever calls are made on the second request**, the first one returns the same, and so does
finalizing it. -/
def SameRequests (platform : Platform) (request request' : Build BsonBuilder) : Prop :=
  ∀ calls,
    (∀ outputs, returned platform calls request' = .ok outputs →
      returned platform calls request = .ok outputs) ∧
    ∀ cmdId bytes, finalized platform calls cmdId request' = .ok bytes →
      finalized platform calls cmdId request = .ok bytes

end CommandRequest

section Requests

open CommandRequest

variable {f b : BsonBuilder} {left : Leftover} {platform : Platform}

/-! ### Requests with something left -/

theorem under_restart (platform : Platform)
    (hdepth : -2147483648 ≤ b.depth ∧ b.depth < 2147483648) (size : ℕ) :
    b.leftover.Under (restart platform size (newOn b)) (restart platform size b) := by
  have h := under_initializeVector (b := resizeBuffer platform size b) hdepth
    (resizeBuffer platform size b).buffer ((resizeBuffer platform size b).container.getD 0) 0 0 platform
  exact { h with }

/-- **A command begins.** -/
theorem related_initializeWith {beginCommand : BsonBuilder → Build (Bool × BsonBuilder)}
    (hbegin : left.Inserts beginCommand) (size : ℕ) (service : List UInt8)
    (h : left.Under (restart platform size f) (restart platform size b)) :
    left.Follows (initializeWith platform size service beginCommand f)
      (initializeWith platform size service beginCommand b) := by
  refine bothGive_bind (left.writesAlike_under.docAddElement h _ _) fun _ f₁ b₁ h₁ => ?_
  refine bothGive_bind (left.writesAlike_under.docAddElement h₁ _ _) fun _ f₂ b₂ h₂ => ?_
  refine bothGive_bind (Leftover.related_docBeginSubDoc h₂ _) fun _ f₃ b₃ h₃ => ?_
  exact bothGive_bind (hbegin f₃ b₃ h₃) fun _ f₄ b₄ h₄ => Related.pure h₄

/-- The calls of `finalize`. -/
def CommandRequest.closeCommand (platform : Platform) (cmdId : BitVec 32) (b : BsonBuilder) :
    Build BsonBuilder := do
  let b ← b.endDocument
  let b ← b.endDocument
  let (_, b) ← b.docAddElement platform (ascii "user-data") (.i32 cmdId)
  pure b

/-- What `finalize` does with the finished document. -/
def CommandRequest.giveAway (b : BsonBuilder) : Build (List UInt8 × BsonBuilder) := do
  let (place, b) ← b.finish
  let size := (place.map Prod.snd).getD 0
  if size < 0 then
    throw .lengthError
  else
    pure (resize 0 b.buffer size.toNat, { b with buffer := [], container := some 0 })

theorem CommandRequest.finalize_eq (cmdId : BitVec 32) (b : BsonBuilder) :
    finalize platform cmdId b = closeCommand platform cmdId b >>= giveAway := by
  simp only [finalize, closeCommand, giveAway, bind_assoc, pure_bind]

theorem related_closeCommand (platform : Platform) (h : left.Under f b) (cmdId : BitVec 32) :
    left.Follows (closeCommand platform cmdId f) (closeCommand platform cmdId b) := by
  refine (Leftover.related_endDocument h).bind fun f₁ b₁ h₁ => ?_
  refine (Leftover.related_endDocument h₁).bind fun f₂ b₂ h₂ => ?_
  exact bothGive_bind (left.writesAlike_under.docAddElement h₂ _ _) fun _ f₃ b₃ h₃ =>
    Related.pure h₃

theorem related_giveAway (hleft : left.Hidden) (h : left.Under f b) :
    left.FollowsWith (giveAway f) (giveAway b) := by
  refine bothGive_bind ((Leftover.finishesAlike_under hleft).finish h) fun place f' b' h' => ?_
  refine Related.ite (fun _ => Related.throw _) fun _ => Related.pure ⟨?_, ?_⟩
  · exact congrArg (fun buffer => resize 0 buffer _) h'.buffer.symm
  · exact { h' with buffer := rfl, container := rfl }

/-- **A request on top of what does not count** does the same. -/
theorem sameRequests_of_related (hkey : platform.SameKeyBuffers) (hleft : left.Hidden)
    {x y : Build BsonBuilder} (h : left.Follows x y) : SameRequests platform y x := by
  intro calls
  constructor
  · intro outputs hx
    have hcalls := h.bind fun f b h => (operatesAlike_under hkey hleft).performAll (calls.map .call) h
    exact hcalls.map_eq_ok (fun _ _ h => h.1) hx
  · intro cmdId bytes hx
    have hfinal : left.FollowsWith
        (x >>= fun b => performAll platform (calls.map .call) b >>= fun p =>
          finalize platform cmdId p.2)
        (y >>= fun b => performAll platform (calls.map .call) b >>= fun p =>
          finalize platform cmdId p.2) := by
      refine h.bind fun f b h => ?_
      refine bothGive_bind ((operatesAlike_under hkey hleft).performAll _ h) fun _ f' b' h' => ?_
      rw [finalize_eq, finalize_eq]
      exact (related_closeCommand platform h' cmdId).bind fun f'' b'' h'' => related_giveAway hleft h''
    exact hfinal.map_eq_ok (fun _ _ h => h.1) hx

end Requests

/-! ### A new request -/

namespace Writing

variable {d : Draft} {b : BsonBuilder}

/-- The key of an element for which there is room. -/
theorem insert_of_room (platform : Platform) {name : List UInt8} {typeByte : UInt8} {size : ℕ}
    (h : Writing [] 0 d [] 0 b) (hlt : b.buffer.length < 2147483648)
    (hroom : d.usage [] 0 + (size + (header typeByte name).length) ≤ b.buffer.length) :
    ∃ b₁, b.verifyCapacityAndInsertKey platform typeByte name size = .ok (true, b₁) ∧
      Writing [] 0 d (header typeByte name) size b₁ ∧ SameBacking b b₁ := by
  have hle : b.currentUsage + (size + (header typeByte name).length : ℕ) ≤ b.capacity := by
    rw [h.usage_eq, h.capacity, wrap32_natCast hlt]
    exact_mod_cast hroom
  exact h.insertHeader (h.verifyEnoughCapacity_of_le hle) hle

theorem docAddElement_of_room (platform : Platform) (name : List UInt8) (v : Leaf)
    (h : Writing [] 0 d [] 0 b) (hlt : b.buffer.length < 2147483648)
    (hroom : d.usage [] 0 + (v.bytes.length + (header v.typeByte name).length) ≤ b.buffer.length) :
    ∃ b', b.docAddElement platform name v = .ok (true, b') ∧
      Writing [] 0 (d.add (.leaf name v .nil)) [] 0 b' ∧ SameBacking b b' := by
  obtain ⟨b₁, hinsert, hw, hsame⟩ := h.insert_of_room platform hlt hroom
  have hkey : (BuilderKey.name name).insert platform v.typeByte v.bytes.length b = .ok (true, b₁) :=
    hinsert
  obtain ⟨b', hadd, hw', hsame'⟩ := addLeaf hkey hw
  refine ⟨b', ?_, hw', hsame.trans hsame'⟩
  exact (congrFun (BuilderCall.perform_add platform (.name name) v) b).trans hadd

theorem docBeginSubDoc_of_room (platform : Platform) (name : List UInt8)
    (h : Writing [] 0 d [] 0 b) (hlt : b.buffer.length < 2147483648)
    (hroom : d.usage [] 0 + (5 + (header Kind.doc.typeByte name).length) ≤ b.buffer.length) :
    ∃ hole b', b.docBeginSubDoc platform name = .ok (true, b') ∧
      Writing [] 0 (d.push ⟨.doc, name, hole, .nil⟩) [] 0 b' ∧ SameBacking b b' := by
  obtain ⟨b₁, hinsert, hw, hsame⟩ := h.insert_of_room platform hlt hroom
  obtain ⟨hole, b', hbegin, hw', hsame'⟩ := beginContainer hinsert hw
  exact ⟨hole, b', hbegin, hw', hsame.trans hsame'⟩

end Writing

section New

open CommandRequest

variable {platform : Platform}

/-- The vector has room for a document. -/
theorem restart_eq {size : ℕ} (hsize : 5 ≤ size) (b : BsonBuilder) :
    restart platform size (newOn b)
      = { BsonBuilder.initializeBuffer (resize 0 b.buffer size) {} with
          container := (restart platform size (newOn b)).container, reallocate := true } := by
  have hlen := length_resize 0 b.buffer size
  have hneeded : ¬ (resize 0 b.buffer size).length < (5 + 0 + 0) % 4294967296 := by omega
  simp only [restart, resizeBuffer, newOn, BsonBuilder.initializeVector, hneeded, if_false, false_and]
  rfl

theorem writing_restart {size : ℕ} (hsize : 5 ≤ size) (b : BsonBuilder) :
    Writing [] 0 ⟨(resize 0 b.buffer size).take 4, .nil, [], []⟩ [] 0
      (restart platform size (newOn b)) := by
  have h := writing_initializeBuffer ((length_resize 0 b.buffer size).ge.trans' hsize)
  rw [restart_eq hsize b]
  exact ⟨h.buffer, h.holes, h.offset, h.usage, h.room, h.small, h.capacity, h.stack, h.counters,
    h.arrays, h.depth, h.start⟩

/-- A function that begins the document of a command without a name, when there is room for it. -/
def Opens (beginCommand : BsonBuilder → Build (Bool × BsonBuilder)) : Prop :=
  ∀ (d : Draft) (b : BsonBuilder), Writing [] 0 d [] 0 b → b.buffer.length < 2147483648 →
    d.usage [] 0 + 7 ≤ b.buffer.length →
    ∃ hole b', beginCommand b = .ok (true, b') ∧
      Writing [] 0 (d.push ⟨.doc, [], hole, .nil⟩) [] 0 b' ∧ SameBacking b b'

theorem opens_docBeginSubDoc : Opens (BsonBuilder.docBeginSubDoc platform []) :=
  fun _ _ h hlt hroom => h.docBeginSubDoc_of_room platform [] hlt hroom

theorem opens_docBeginSubDocFrom :
    Opens (BsonBuilder.docBeginSubDocFrom platform [] (document [])) := by
  intro d b h hlt hroom
  have hkey : d.usage [] 0 + (5 + (header Kind.doc.typeByte []).length) ≤ b.buffer.length := hroom
  obtain ⟨b₁, hinsert, hw, hsame⟩ := h.insert_of_room platform hlt hkey
  obtain ⟨hole, b', hbegin, hw', hsame'⟩ := hw.docBeginSubDocFrom (e := .nil) (by decide) hinsert
  exact ⟨hole, b', hbegin, hw', hsame.trans hsame'⟩

/-- What a request holds when its command has begun: the draft in front of the command, and the
command. -/
structure Begun (size : ℕ) (d : Draft) (cmdHole hole : List UInt8) (b : BsonBuilder) : Prop where
  writing : Writing [] 0 ((d.push ⟨.doc, ascii "cmd", cmdHole, .nil⟩).push ⟨.doc, [], hole, .nil⟩)
    [] 0 b
  layers : d.layers = []
  usage : d.usage [] 0 = 31
  length : b.buffer.length = size
  errorFlag : b.errorFlag = false

/-- **A new request begins its command.** -/
theorem initializeWith_new (platform : Platform)
    {beginCommand : BsonBuilder → Build (Bool × BsonBuilder)} {size : ℕ} (hsize : 100 ≤ size)
    (hlt : size < 2147483648) (hbegin : Opens beginCommand) (b : BsonBuilder) :
    ∃ d cmdHole hole b', initializeWith platform size [] beginCommand (newOn b) = .ok b' ∧
      Begun size d cmdHole hole b' := by
  obtain ⟨b₀, hb₀⟩ : ∃ b₀, b₀ = restart platform size (newOn b) := ⟨_, rfl⟩
  obtain ⟨start, hstart⟩ : ∃ start : Draft, start = ⟨(resize 0 b.buffer size).take 4, .nil, [], []⟩ :=
    ⟨_, rfl⟩
  have h₀ := @writing_restart platform size (by omega) b
  rw [← hb₀, ← hstart] at h₀
  have hlen₀ : b₀.buffer.length = size := by
    rw [hb₀, restart_eq (by omega)]
    exact length_resize 0 b.buffer size
  have husage₀ : start.usage [] 0 = 5 := by
    have hhole : start.hole.length = 4 := h₀.holes.1
    rw [hstart] at hhole ⊢
    simp only [Draft.usage, Draft.spine, Draft.spineOf, Elements.bytes, List.append_nil,
      List.nil_append, hhole, List.length_nil]
  -- the two elements in front
  obtain ⟨b₁, hadd₁, h₁, hsame₁⟩ := h₀.docAddElement_of_room platform (ascii "00type")
    (.i32 1) (by omega) (by rw [husage₀, hlen₀]; exact hsize.trans' (by decide))
  have hlen₁ := hsame₁.length.trans hlen₀
  have husage₁ : (start.add (.leaf (ascii "00type") (.i32 1) .nil)).usage [] 0 = 17 := by
    rw [Draft.usage_add, husage₀]
    rfl
  obtain ⟨b₂, hadd₂, h₂, hsame₂⟩ := h₁.docAddElement_of_room platform (ascii "service")
    (.string []) (by omega) (by rw [husage₁, hlen₁]; exact hsize.trans' (by decide))
  have hlen₂ := hsame₂.length.trans hlen₁
  obtain ⟨d, hd⟩ : ∃ d, d = (start.add (.leaf (ascii "00type") (.i32 1) .nil)).add
      (.leaf (ascii "service") (.string []) .nil) := ⟨_, rfl⟩
  have husage₂ : d.usage [] 0 = 31 := by
    rw [hd, Draft.usage_add, husage₁]
    rfl
  rw [← hd] at h₂
  -- the two documents
  obtain ⟨cmdHole, b₃, hbegin₃, h₃, hsame₃⟩ := h₂.docBeginSubDoc_of_room platform (ascii "cmd")
    (by omega) (by rw [husage₂, hlen₂]; exact hsize.trans' (by decide))
  have hlen₃ := hsame₃.length.trans hlen₂
  have hcmdHole : cmdHole.length = 4 := h₃.holes.2 _ List.mem_cons_self
  have husage₃ : (d.push ⟨.doc, ascii "cmd", cmdHole, .nil⟩).usage [] 0 = 41 := by
    rw [Draft.usage_push, husage₂, hcmdHole]
    rfl
  obtain ⟨hole, b₄, hbegin₄, h₄, hsame₄⟩ := hbegin _ b₃ h₃ (by omega) (by omega)
  have hlayers : d.layers = [] := by rw [hd, hstart]; rfl
  have herror : b₄.errorFlag = false := by
    rw [hsame₄.errorFlag, hsame₃.errorFlag, hsame₂.errorFlag, hsame₁.errorFlag, hb₀]
    rfl
  refine ⟨d, cmdHole, hole, b₄, ?_, h₄, hlayers, husage₂, hsame₄.length.trans hlen₃, herror⟩
  rw [initializeWith, ← hb₀]
  simp only [hadd₁, hadd₂, hbegin₃, hbegin₄, bind, Except.bind]
  rfl

/-- **The command of a new request ends.** -/
theorem closes_new {size : ℕ} {d : Draft} {cmdHole hole : List UInt8} {b : BsonBuilder}
    (h : Begun size d cmdHole hole b) :
    ∃ b₁ b₂ d', b.endDocument = .ok b₁ ∧ b₁.endDocument = .ok b₂ ∧ Writing [] 0 d' [] 0 b₂ ∧
      d'.layers = [] ∧ d'.usage [] 0 = 48 ∧ SameBacking b b₂ := by
  obtain ⟨d₁, hd₁⟩ : ∃ d₁ : Draft, d₁ = d.push ⟨.doc, ascii "cmd", cmdHole, .nil⟩ := ⟨_, rfl⟩
  have hw := h.writing
  rw [← hd₁] at hw
  obtain ⟨b₁, hclose₁, hw₁, hsame₁⟩ := hw.close .tight rfl
  have hpop₁ := Draft.pop_push .doc [] hole .nil 0 d₁
  rw [Draft.add_nil, Draft.tick_zero] at hpop₁
  rw [hpop₁, hd₁] at hw₁
  obtain ⟨b₂, hclose₂, hw₂, hsame₂⟩ := hw₁.close .tight rfl
  have hpop₂ := Draft.pop_push .doc (ascii "cmd") cmdHole (.sub .doc [] .nil .nil) 0 d
  rw [Draft.tick_zero] at hpop₂
  rw [hpop₂] at hw₂
  refine ⟨b₁, b₂, _, perform_close_iff.mp hclose₁, perform_close_iff.mp hclose₂, hw₂, ?_, ?_,
    hsame₁.trans hsame₂⟩
  · rw [Draft.add, h.layers]
  · rw [Draft.usage_add, h.usage]
    rfl

theorem closeCommand_new (platform : Platform) (cmdId : BitVec 32) {size : ℕ} (hsize : 100 ≤ size)
    (hlt : size < 2147483648) {d : Draft} {cmdHole hole : List UInt8} {b : BsonBuilder}
    (h : Begun size d cmdHole hole b) :
    ∃ d' b', closeCommand platform cmdId b = .ok b' ∧ Writing [] 0 d' [] 0 b' ∧ d'.layers = [] ∧
      b'.errorFlag = false := by
  obtain ⟨b₁, b₂, d₂, hclose₁, hclose₂, hw, hlayers, husage, hsame⟩ := closes_new h
  have hlen : b₂.buffer.length = size := hsame.length.trans h.length
  have huser : d₂.usage [] 0 + ((Leaf.i32 cmdId).bytes.length
      + (header (Leaf.i32 cmdId).typeByte (ascii "user-data")).length) ≤ b₂.buffer.length := by
    rw [husage, hlen, Leaf.length_bytes_i32, length_header]
    exact hsize.trans' (by decide)
  obtain ⟨b₃, hadd, hw₃, hsame₃⟩ :=
    hw.docAddElement_of_room platform (ascii "user-data") (.i32 cmdId) (by omega) huser
  refine ⟨_, b₃, ?_, hw₃, ?_, ?_⟩
  · simp only [closeCommand, hclose₁, hclose₂, hadd, bind, Except.bind]
    rfl
  · rw [Draft.add, hlayers]
  · rw [hsame₃.errorFlag, hsame.errorFlag, h.errorFlag]

/-- The document of a new request is not empty. -/
theorem giveAway_new {d : Draft} {b : BsonBuilder} (h : Writing [] 0 d [] 0 b)
    (hlayers : d.layers = []) (herror : b.errorFlag = false) :
    ∃ bytes b', giveAway b = .ok (bytes, b') ∧ bytes ≠ [] := by
  obtain ⟨tail, b', hfinish, -, -⟩ := h.finish hlayers herror
  refine ⟨resize 0 b'.buffer (document d.main.bytes).length,
    { b' with buffer := [], container := some 0 }, ?_, ?_⟩
  · simp only [giveAway, hfinish, bind, Except.bind, Option.map_some, Option.getD_some]
    rw [if_neg (by omega), Int.toNat_natCast]
    rfl
  · refine List.ne_nil_of_length_pos ?_
    rw [length_resize, length_document]
    omega

/-- With something left that no call takes away, there are no bytes. -/
theorem giveAway_left {b : BsonBuilder} (h : b.depth ≠ 0 ∨ b.errorFlag = true) :
    giveAway b = .ok ([], { b with buffer := [], container := some 0 }) := by
  have hnil : resize 0 b.buffer 0 = [] := List.eq_nil_of_length_eq_zero (length_resize 0 b.buffer 0)
  simp only [giveAway, BsonBuilder.finish, if_pos h]
  exact congrArg (fun bytes => Except.ok (bytes, { b with buffer := [], container := some 0 })) hnil

/-! ### What is seen of an earlier command -/

theorem reusable_of_sameRequests {b : BsonBuilder}
    (hdepth : -2147483648 ≤ b.depth ∧ b.depth < 2147483648)
    {beginCommand : BsonBuilder → Build (Bool × BsonBuilder)} {size : ℕ} (hsize : 100 ≤ size)
    (hlt : size < 2147483648) (hbegin : Opens beginCommand)
    (hinserts : b.leftover.Inserts beginCommand)
    (h : SameRequests platform (initializeWith platform size [] beginCommand b)
      (initializeWith platform size [] beginCommand (newOn b))) : b.Reusable := by
  obtain ⟨d, cmdHole, hole, f₁, hnew, hbegun⟩ := initializeWith_new platform hsize hlt hbegin b
  have hrelated := related_initializeWith hinserts size [] (under_restart platform hdepth size)
  rw [hnew] at hrelated h
  obtain ⟨b₁, hb₁, hunder⟩ := hrelated.exists_of_ok
  rw [hb₁] at h
  obtain ⟨d', f₂, hclose, hw, hlayers, herror⟩ := closeCommand_new platform 0 hsize hlt hbegun
  obtain ⟨bytes, f₃, hgive, hne⟩ := giveAway_new hw hlayers herror
  have hsome : finalize platform 0 f₁ = .ok (bytes, f₃) := by
    rw [finalize_eq, hclose]
    exact hgive
  have hsame : (finalize platform 0 b₁).map Prod.fst = .ok bytes :=
    (h []).2 0 bytes (congrArg (Except.map Prod.fst) hsome)
  -- what is left is still there when the request is finalized
  have hfollow := related_closeCommand platform hunder 0
  rw [hclose] at hfollow
  obtain ⟨b₂, hb₂, hunder₂⟩ := hfollow.exists_of_ok
  have hkept : b₂.depth = b.depth ∧ b₂.errorFlag = b.errorFlag := by
    constructor
    · rw [hunder₂.depth, hw.depth, hlayers]
      show wrap32 (0 + b.depth) = b.depth
      rw [zero_add, wrap32_of_range hdepth.1 hdepth.2]
    · rw [hunder₂.errorFlag, herror]
      exact Bool.false_or b.errorFlag
  by_cases hleft : b₂.depth ≠ 0 ∨ b₂.errorFlag = true
  · rw [finalize_eq, hb₂] at hsame
    have hnone := (congrArg (Except.map Prod.fst) (giveAway_left hleft)).symm.trans hsame
    exact absurd (Except.ok.inj hnone).symm hne
  · obtain ⟨hclosed, hgood⟩ := not_or.mp hleft
    exact ⟨hkept.1.symm.trans (not_not.mp hclosed),
      hkept.2.symm.trans (Bool.eq_false_of_not_eq_true hgood)⟩

theorem inserts_docBeginSubDoc (left : Leftover) (command : List UInt8) :
    left.Inserts (BsonBuilder.docBeginSubDoc platform command) :=
  fun _ _ h => Leftover.related_docBeginSubDoc h command

theorem inserts_docBeginSubDocFrom (left : Leftover) (command content : List UInt8) :
    left.Inserts (BsonBuilder.docBeginSubDocFrom platform command content) :=
  fun _ _ h => left.writesAlike_under.docBeginSubDocFrom Leftover.under_openContainer h command content

/-- The body of a command is an empty document. -/
theorem initializeFrom_empty (service command : List UInt8) (b : BsonBuilder) :
    initializeFrom platform service command (document []) b
      = initializeWith platform 105 service
          (BsonBuilder.docBeginSubDocFrom platform command (document [])) b := by
  have hsize : wrap32 (100 + toI32 ((document []).take 4)) = 105 := by decide
  simp only [initializeFrom, hsize]
  rfl

/-- **A request goes on from a document** whatever is left in it. -/
theorem follows_initializeFrom {b : BsonBuilder}
    (hdepth : -2147483648 ≤ b.depth ∧ b.depth < 2147483648) (service command content : List UInt8) :
    b.leftover.Follows (initializeFrom platform service command content (newOn b))
      (initializeFrom platform service command content b) := by
  rw [initializeFrom, initializeFrom]
  generalize wrap32 (100 + toI32 (content.take 4)) = size
  refine Related.ite (fun _ => Related.throw _) fun _ => ?_
  exact related_initializeWith (inserts_docBeginSubDocFrom _ command content) _ service
    (under_restart platform hdepth _)

end New

/-- **A builder can be used again exactly when nothing is left in it that counts**: no document is open,
no call has failed, and for a buffer of its own size there was no vector before it. A request can be used
again exactly when its builder can. -/
theorem equivalent_iff_reusable (platform : Platform) (hkey : platform.SameKeyBuffers) (b : BsonBuilder)
    (hdepth : -2147483648 ≤ b.depth ∧ b.depth < 2147483648) :
    (∀ content capacity startOffset reservedExtraFooter, Equivalent platform
        (b.initializeVector content capacity startOffset reservedExtraFooter platform)
        (BsonBuilder.initializeVector content capacity startOffset reservedExtraFooter platform {})
        ↔ b.Reusable) ∧
      (∀ buffer, Equivalent platform (b.initializeBuffer buffer)
        (BsonBuilder.initializeBuffer buffer {}) ↔ b.Reusable ∧ b.reallocate = false) ∧
      ((∀ service command, CommandRequest.SameRequests platform
        (CommandRequest.initializeCommand platform service command b)
        (CommandRequest.initializeCommand platform service command (CommandRequest.newOn b)))
        ↔ b.Reusable) ∧
      ((∀ service command content, CommandRequest.SameRequests platform
        (CommandRequest.initializeFrom platform service command content b)
        (CommandRequest.initializeFrom platform service command content (CommandRequest.newOn b)))
        ↔ b.Reusable) := by
  refine ⟨initializeVector_equivalent_iff hkey b, initializeBuffer_equivalent_iff hkey b,
    ⟨fun h => ?_, fun hb service command => ?_⟩, ⟨fun h => ?_, fun hb service command content => ?_⟩⟩
  · exact reusable_of_sameRequests hdepth (by decide) (by decide) opens_docBeginSubDoc
      (inserts_docBeginSubDoc _ []) (h [] [])
  · exact sameRequests_of_related hkey hb.hidden (related_initializeWith
      (inserts_docBeginSubDoc _ command) 100 service (under_restart platform hdepth 100))
  · have hsame := h [] [] (document [])
    rw [initializeFrom_empty, initializeFrom_empty] at hsame
    exact reusable_of_sameRequests hdepth (by decide) (by decide) opens_docBeginSubDocFrom
      (inserts_docBeginSubDocFrom _ [] (document [])) hsame
  · exact sameRequests_of_related hkey hb.hidden (follows_initializeFrom hdepth service command content)

/-- A builder has finished a document with an array, which was ended as if it were a document: its
counter is left, but does not count. -/
theorem equivalent_iff_reusable_array : ∃ ops outputs b,
    performAll .tight ops {} = .ok (outputs, b) ∧ b.arrayIdxCounters = [1] ∧
      (∀ content capacity startOffset reservedExtraFooter, Equivalent .tight
        (b.initializeVector content capacity startOffset reservedExtraFooter .tight)
        (BsonBuilder.initializeVector content capacity startOffset reservedExtraFooter .tight {})) ∧
      (∀ service command, CommandRequest.SameRequests .tight
        (CommandRequest.initializeCommand .tight service command b)
        (CommandRequest.initializeCommand .tight service command (CommandRequest.newOn b))) ∧
      ∀ service command content, CommandRequest.SameRequests .tight
        (CommandRequest.initializeFrom .tight service command content b)
        (CommandRequest.initializeFrom .tight service command content (CommandRequest.newOn b)) := by
  obtain ⟨outputs, b, hrun, hb, hcounters⟩ : ∃ outputs b, performAll .tight
      [.initializeVector [] 0 0 0, .call (.begin (.name [97]) .array),
        .call (.add .index (.bool true)), .call (.close .doc), .finish] {} = .ok (outputs, b) ∧
      (b.depth = 0 ∧ b.errorFlag = false) ∧ b.arrayIdxCounters = [1] := by
    refine ⟨[.nothing, .succeeded true, .succeeded true, .succeeded true,
        .document (some (0, [17, 0, 0, 0, 4, 97, 0, 9, 0, 0, 0, 8, 48, 0, 0, 0, 0]))],
      { arrayIdxCounters := [1], buffer := [17, 0, 0, 0, 4, 97, 0, 9, 0, 0, 0, 8, 48, 0, 0, 0, 0]
        offset := 17, currentUsage := 17, capacity := 17, container := some 17, docIsArrayBits := 2
        reallocate := true }, ?_, ⟨rfl, rfl⟩, rfl⟩
    decide +kernel
  have hreusable : b.Reusable := ⟨hb.1, hb.2⟩
  obtain ⟨hvector, -, hcommand, hfrom⟩ :=
    equivalent_iff_reusable .tight (fun _ _ => rfl) b hreusable.inRange
  exact ⟨_, outputs, b, hrun, hcounters,
    fun content capacity startOffset reservedExtraFooter =>
      (hvector content capacity startOffset reservedExtraFooter).mpr hreusable,
    hcommand.mpr hreusable, hfrom.mpr hreusable⟩

/-- **A document that was not finished is not cleared away**: the builder still counts it, and takes
the new document for an unfinished one. -/
theorem not_equivalent : ¬ ∀ (platform : Platform) (ops : List BuilderOperation)
    (outputs : List BuilderOutput) (b : BsonBuilder) (content : List UInt8)
    (capacity startOffset reservedExtraFooter : ℕ), platform.SameKeyBuffers →
    performAll platform ops {} = .ok (outputs, b) →
    Equivalent platform
      (b.initializeVector content capacity startOffset reservedExtraFooter platform)
      (BsonBuilder.initializeVector content capacity startOffset reservedExtraFooter platform {}) := by
  intro h
  have hrun : performAll .tight [.initializeVector [] 0 0 0, .call (.begin (.name [97]) .doc)] {}
      = .ok ([.nothing, .succeeded true],
        { documentSizeOffsets := [7], buffer := [0, 0, 0, 0, 3, 97, 0, 0, 0, 0, 0, 0, 0], offset := 11
          currentUsage := 13, capacity := 13, container := some 13, depth := 1
          reallocate := true }) := by
    decide +kernel
  have hreusable := reusable_of_equivalent ⟨rfl, rfl⟩ (h .tight _ _ _ [] 0 0 0 (fun _ _ => rfl) hrun)
  exact absurd hreusable.depth (by decide)

end ScApi
