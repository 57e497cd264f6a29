import ScApi.BsonReading

/-!
# Walking through a document

A user of the reader goes through a document depth first: `next`, `beginSub` on every document or
array, `endSub` on every end. `validate` makes the same moves and only looks for errors. Each turn of
both loops is one move of the reader, so what a document makes them do is said once, as a sequence of
moves.

## Main results

* `walkLoop_of_moves`, `validateLoop_of_moves`: both loops follow the moves.
* `AtElements.moves`: the moves over some elements.
* `validate_document`, `walk_document`: every document is valid, and a walk meets its elements.
-/

open Bytes BoundedRead Bson

namespace ScApi

open ElementType

/-- What a walk meets: a value, with the type, the key and the index of its element, the begin of a
container, or its end. -/
inductive Visit where
  | value (type : ElementType) (key : List UInt8) (v : Leaf) (index : ℤ)
  | enter (type : ElementType) (key : List UInt8) (index : ℤ)
  | leave
  deriving DecidableEq, Repr

/-- The type of the element of a leaf. -/
def leafType : Leaf → ElementType
  | .bool _ => elementBool
  | .double _ => elementDouble
  | .i32 _ => elementI32
  | .i64 _ => elementI64
  | .null => elementNull
  | .string _ => elementStr
  | .binary _ _ => elementBinary

/-- The type of the element of a container. -/
def kindType : Kind → ElementType
  | .doc => elementDoc
  | .array => elementArray

/-- The `index()` of the element behind `n` others: its position in an array. -/
def indexIn (n : ℕ) : Kind → ℤ
  | .doc => -2
  | .array => n

/-- What a walk has to meet in the elements of a container, behind `n` others. -/
def visitsOf (kind : Kind) : ℕ → Elements → List Visit
  | _, .nil => []
  | n, .leaf key v rest => .value (leafType v) key v (indexIn n kind) :: visitsOf kind (n + 1) rest
  | n, .sub kind' key body rest =>
      .enter (kindType kind') key (indexIn n kind) :: visitsOf kind' 0 body
        ++ .leave :: visitsOf kind (n + 1) rest

namespace BsonReader

/-- The loop of a walk that is `depth` containers deep; `none` when a call fails. -/
def walkLoop (mem : List UInt8) : ℕ → ℕ → BsonReader → Read (Option (List Visit))
  | 0, _, _ => throw .outOfFuel
  | n + 1, depth, r => do
      let (t, r) ← r.next mem
      if t = elementEnd then
        match depth with
        | 0 => pure (some [])
        | depth + 1 =>
            let (ended, r) := r.endSub
            if ended then do
              let visits ← walkLoop mem n depth r
              pure (visits.map (.leave :: ·))
            else
              pure none
      else if t.isContainer then do
        let (begun, sub) ← r.beginSub mem
        if begun then do
          let visits ← walkLoop mem n (depth + 1) sub
          pure (visits.map (.enter t r.key r.arrIndex :: ·))
        else
          pure none
      else do
        match ← r.leafValue mem with
        | none => pure none
        | some v => do
            let visits ← walkLoop mem n depth r
            pure (visits.map (.value t r.key v r.arrIndex :: ·))

/-- A walk through the document in a buffer of some size. -/
def walk (mem : List UInt8) (size : ℕ) : Read (Option (List Visit)) := do
  let r ← ofBufferSize (some mem) size
  walkLoop mem (2 * r.curDocEnd.toNat + 2) 0 r

/-! ### Moves -/

/-- **The moves of a reader**, one for each turn of a loop, with what they meet. -/
inductive Moves (mem : List UInt8) : ℕ → BsonReader → List Visit → ℕ → BsonReader → Prop
  | done (depth : ℕ) (r : BsonReader) : Moves mem depth r [] depth r
  | value {depth depth' : ℕ} {r r₁ r' : BsonReader} {v : Leaf} {visits : List Visit}
      (hnext : r.next mem = .ok (leafType v, r₁)) (hvalue : r₁.leafValue mem = .ok (some v))
      (h : Moves mem depth r₁ visits depth' r') :
      Moves mem depth r (.value (leafType v) r₁.key v r₁.arrIndex :: visits) depth' r'
  | enter {depth depth' : ℕ} {r r₁ r₂ r' : BsonReader} {kind : Kind} {visits : List Visit}
      (hnext : r.next mem = .ok (kindType kind, r₁)) (hbegin : r₁.beginSub mem = .ok (true, r₂))
      (h : Moves mem (depth + 1) r₂ visits depth' r') :
      Moves mem depth r (.enter (kindType kind) r₁.key r₁.arrIndex :: visits) depth' r'
  | leave {depth depth' : ℕ} {r r₁ r' : BsonReader} {visits : List Visit}
      (hnext : r.next mem = .ok (elementEnd, r₁)) (hend : r₁.endSub.1 = true)
      (h : Moves mem depth r₁.endSub.2 visits depth' r') :
      Moves mem (depth + 1) r (.leave :: visits) depth' r'

section Moves

variable {mem : List UInt8} {depth depth' depth'' : ℕ} {r r' r'' : BsonReader}
  {visits visits' : List Visit}

theorem Moves.trans (h : Moves mem depth r visits depth' r')
    (h' : Moves mem depth' r' visits' depth'' r'') :
    Moves mem depth r (visits ++ visits') depth'' r'' := by
  induction h with
  | done => exact h'
  | value hnext hvalue _ ih => exact .value hnext hvalue (ih h')
  | enter hnext hbegin _ ih => exact .enter hnext hbegin (ih h')
  | leave hnext hend _ ih => exact .leave hnext hend (ih h')

theorem leafType_ne_end (v : Leaf) : leafType v ≠ elementEnd := by
  cases v <;> exact nofun

theorem isContainer_leafType (v : Leaf) : (leafType v).isContainer = false := by
  cases v <;> rfl

theorem kindType_ne_end (kind : Kind) : kindType kind ≠ elementEnd := by
  cases kind <;> exact nofun

theorem isContainer_kindType (kind : Kind) : (kindType kind).isContainer = true := by
  cases kind <;> rfl

/-- **A walk follows the moves** and meets what they meet. -/
theorem walkLoop_of_moves (h : Moves mem depth r visits depth' r') {n : ℕ}
    {last : List Visit} (hlast : walkLoop mem n depth' r' = .ok (some last)) :
    walkLoop mem (n + visits.length) depth r = .ok (some (visits ++ last)) := by
  induction h with
  | done => exact hlast
  | @value _ _ _ _ _ v visits hnext hvalue _ ih =>
      rw [List.length_cons, ← Nat.add_assoc, walkLoop, hnext]
      simp only [ok_bind, if_neg (leafType_ne_end v), isContainer_leafType, Bool.false_eq_true,
        if_false, hvalue, ih hlast]
      rfl
  | @enter _ _ _ _ _ _ kind visits hnext hbegin _ ih =>
      rw [List.length_cons, ← Nat.add_assoc, walkLoop, hnext]
      simp only [ok_bind, if_neg (kindType_ne_end kind), isContainer_kindType, if_true, hbegin,
        ih hlast]
      rfl
  | leave hnext hend _ ih =>
      rw [List.length_cons, ← Nat.add_assoc, walkLoop, hnext]
      simp only [ok_bind, if_true, hend, ih hlast]
      rfl

/-- **A validation follows the moves.** -/
theorem validateLoop_of_moves (h : Moves mem depth r visits depth' r') (n : ℕ) :
    validateLoop mem (n + visits.length) depth r = validateLoop mem n depth' r' := by
  induction h with
  | done => rfl
  | @value _ _ _ _ _ v visits hnext hvalue _ ih =>
      have hne : leafType v ≠ elementFormatError := by cases v <;> rintro ⟨⟩
      rw [List.length_cons, ← Nat.add_assoc, validateLoop, validateTurn, hnext, ← ih]
      simp only [ok_bind, if_neg hne, if_neg (leafType_ne_end v), isContainer_leafType,
        Bool.false_eq_true, if_false, pure_eq_ok]
  | @enter _ _ _ _ _ _ kind visits hnext hbegin _ ih =>
      have hne : kindType kind ≠ elementFormatError := by cases kind <;> rintro ⟨⟩
      rw [List.length_cons, ← Nat.add_assoc, validateLoop, validateTurn, hnext, ← ih]
      simp only [ok_bind, if_neg hne, if_neg (kindType_ne_end kind), isContainer_kindType, if_true,
        hbegin, pure_eq_ok]
  | leave hnext hend _ ih =>
      have hne : elementEnd ≠ elementFormatError := by rintro ⟨⟩
      rw [List.length_cons, ← Nat.add_assoc, validateLoop, validateTurn, hnext, ← ih]
      simp only [ok_bind, if_neg hne, if_true, hend, pure_eq_ok]

end Moves

/-! ### The moves over a document -/

theorem ofByte_leaf (v : Leaf) : ElementType.ofByte v.typeByte = leafType v := by
  cases v <;> rfl

theorem ofByte_kind (kind : Kind) : ElementType.ofByte kind.typeByte = kindType kind := by
  cases kind <;> rfl

/-- The number of moves is bounded by the bytes. -/
theorem length_visitsOf_le (kind : Kind) (idx : ℕ) (els : Elements) :
    (visitsOf kind idx els).length ≤ els.bytes.length := by
  induction els generalizing kind idx with
  | nil => exact le_rfl
  | leaf key v rest ih =>
      have hrest := ih kind (idx + 1)
      rw [visitsOf, List.length_cons, Elements.bytes, List.length_append, List.length_append,
        length_header]
      omega
  | sub kind' key body rest ihbody ihrest =>
      have hbody := ihbody kind' 0
      have hrest := ihrest kind (idx + 1)
      rw [visitsOf, List.length_append, List.length_cons, List.length_cons, Elements.bytes,
        List.length_append, List.length_append, length_header, length_document]
      omega

section Located

variable {mem pre post : List UInt8} {els : Elements} {r : BsonReader} {kind : Kind} {idx : ℕ}

/-- The index of a reader behind `idx` elements of a container. -/
def indexBehind (idx : ℕ) : Kind → ℤ
  | .doc => -2
  | .array => idx - 1

/-- The index is counted up by one element. -/
theorem nextArrIndex_indexBehind (kind : Kind) {idx : ℕ} (h : idx < 2147483648) :
    nextArrIndex (indexBehind idx kind) = indexIn idx kind ∧
      indexIn idx kind = indexBehind (idx + 1) kind := by
  cases kind with
  | doc => exact ⟨rfl, rfl⟩
  | array =>
      rw [indexBehind, indexIn, indexBehind, nextArrIndex, if_pos (by omega)]
      constructor
      · rw [wrap32_of_range (by omega) (by omega)]
        omega
      · omega

theorem next_nil (h : AtElements mem pre post .nil r) :
    r.next mem = .ok (elementEnd, r.atDocEnd pre.length) := by
  have hbyte : byteAt mem pre.length = .ok 0 := by
    rw [h.mem_eq, Elements.bytes, List.append_nil]
    exact byteAt_append pre 0 post
  exact h.before.next_end hbyte

/-- **The moves over some elements**: they meet each element in turn, and the reader is behind them
then. -/
theorem AtElements.moves (h : AtElements mem pre post els r) (hclean : els.CleanKeys)
    (hdepth : r.docLayers.length + els.depth ≤ kMaxSubdocs) (hidx : idx ≤ pre.length)
    (hindex : r.arrIndex = indexBehind idx kind) (depth : ℕ) :
    ∃ r', Moves mem depth r (visitsOf kind idx els) depth r' ∧
      AtElements mem (pre ++ els.bytes) post .nil r' ∧ r'.docLayers = r.docLayers ∧
      r'.curDocEnd = r.curDocEnd := by
  induction els generalizing pre post r kind idx depth with
  | nil =>
      refine ⟨r, .done depth r, ?_, rfl, rfl⟩
      rw [Elements.bytes, List.append_nil]
      exact h
  | leaf key v rest ih =>
      obtain ⟨hkey, hclean⟩ := hclean
      have hlt := h.before.inside.docEnd_lt
      have hend := h.docEnd
      obtain ⟨hnow, hlater⟩ := nextArrIndex_indexBehind kind (by omega : idx < 2147483648)
      obtain ⟨r₁, hnext, hvalue, hkey₁, hindex₁, hlayers₁, hend₁, h₁⟩ := h.next_leaf hkey
      rw [hindex, hnow] at hindex₁
      obtain ⟨r', hmoves, h', hlayers', hend'⟩ := ih h₁ hclean (by rw [hlayers₁]; exact hdepth)
        (show idx + 1 ≤ _ by rw [List.length_append, List.length_append, length_header]; omega)
        (hindex₁.trans hlater) depth
      refine ⟨r', ?_, ?_, hlayers'.trans hlayers₁, hend'.trans hend₁⟩
      · rw [visitsOf, ← hkey₁, ← hindex₁]
        rw [ofByte_leaf] at hnext
        exact .value hnext hvalue hmoves
      · rw [Elements.bytes, ← List.append_assoc]
        exact h'
  | sub kind' key body rest ihbody ihrest =>
      obtain ⟨hkey, hbody, hrest⟩ := hclean
      rw [Elements.depth] at hdepth
      have hlt := h.before.inside.docEnd_lt
      have hend := h.docEnd
      obtain ⟨hnow, hlater⟩ := nextArrIndex_indexBehind kind (by omega : idx < 2147483648)
      obtain ⟨r₁, r₂, hnext, hkey₁, hindex₁, hbegin, hlayers₂, hindex₂, h₂, hback⟩ :=
        h.next_sub hkey (by omega)
      rw [hindex, hnow] at hindex₁
      have hfirst : r₂.arrIndex = indexBehind 0 kind' := by
        rw [hindex₂]
        cases kind' <;> rfl
      obtain ⟨r₃, hmoves₃, h₃, hlayers₃, hend₃⟩ :=
        ihbody h₂ hbody (by omega) (Nat.zero_le _) hfirst (depth + 1)
      -- the end of the container, and behind it
      have hnext₃ := next_nil h₃
      obtain ⟨hended, hlayers₄, hend₄, hindex₄, h₄⟩ :=
        hback _ (h₃.before.inside.next hnext₃) hlayers₃ hend₃
      rw [hindex, hnow] at hindex₄
      obtain ⟨r', hmoves', h', hlayers', hend'⟩ := ihrest h₄ hrest (by rw [hlayers₄]; omega)
        (show idx + 1 ≤ _ by rw [List.length_append, List.length_append, length_header]; omega)
        (hindex₄.trans hlater) depth
      refine ⟨r', ?_, ?_, hlayers'.trans hlayers₄, hend'.trans hend₄⟩
      · rw [visitsOf, ← hkey₁, ← hindex₁]
        rw [ofByte_kind] at hnext
        exact .enter hnext hbegin (hmoves₃.trans (.leave hnext₃ hended hmoves'))
      · rw [Elements.bytes, ← List.append_assoc]
        exact h'

end Located

end BsonReader

open BsonReader

/-- **The moves over a document** that a constructor has accepted, with turns left for its end. -/
theorem moves_document {els : Elements} (tail : List UInt8) (hclean : els.CleanKeys)
    (hlen : (document els.bytes).length < 2147483648) (hdepth : els.depth ≤ 16) {size : ℕ}
    (hsize : (document els.bytes).length ≤ size) :
    ∃ k r' last, Moves (document els.bytes ++ tail) 0 (accepted size (document els.bytes).length)
        (visitsOf .doc 0 els) 0 r' ∧
      r'.next (document els.bytes ++ tail) = .ok (elementEnd, last) ∧
      2 * (accepted size (document els.bytes).length).curDocEnd.toNat + 2
        = k + 1 + (visitsOf .doc 0 els).length := by
  obtain ⟨-, -, hat⟩ := atElements_ofBufferSize tail hlen hsize
  obtain ⟨r', hmoves, hnil, -, -⟩ := hat.moves hclean
    (show 0 + els.depth ≤ kMaxSubdocs by rw [kMaxSubdocs]; omega) (Nat.zero_le _)
    (show _ = indexBehind 0 .doc from rfl) 0
  have hcount := length_visitsOf_le .doc 0 els
  have hdoc := length_document els.bytes
  have hend : (accepted size (document els.bytes).length).curDocEnd.toNat
      = (document els.bytes).length := Int.toNat_natCast _
  refine ⟨2 * (document els.bytes).length + 1 - (visitsOf .doc 0 els).length, r', _, hmoves,
    next_nil hnil, ?_⟩
  rw [hend]
  omega

/-- **Every document is valid.** -/
theorem validate_document {els : Elements} (tail : List UInt8) (hclean : els.CleanKeys)
    (hlen : (document els.bytes).length < 2147483648) (hdepth : els.depth ≤ 16) {size : ℕ}
    (hsize : (document els.bytes).length ≤ size) :
    validate (document els.bytes ++ tail) size = .ok true := by
  obtain ⟨htotal, hctor, -⟩ := atElements_ofBufferSize tail hlen hsize
  obtain ⟨k, r', last, hmoves, hnext, hk⟩ := moves_document tail hclean hlen hdepth hsize
  have hlast : validateLoop (document els.bytes ++ tail) (k + 1) 0 r' = .ok (true, last) := by
    have hne : elementEnd ≠ elementFormatError := nofun
    rw [validateLoop, validateTurn, hnext]
    simp only [ok_bind, if_neg hne, if_true, pure_eq_ok]
  have hmin : ¬ size < 5 := by
    rw [length_document] at hsize
    omega
  have hfits : ¬ size < toSizeT (document els.bytes).length := by
    rw [toSizeT_natCast hlen]
    omega
  rw [validate, if_neg hmin, htotal, ok_bind, if_neg hfits, hctor, ok_bind, validateHere, hk,
    validateLoop_of_moves hmoves, hlast]
  rfl

/-- **Every document is valid, and a walk meets its elements** in order, each with its type, key and
value and, in an array, its position. -/
theorem walk_document {els : Elements} (tail : List UInt8) (hclean : els.CleanKeys)
    (hlen : (document els.bytes).length < 2147483648) (hdepth : els.depth ≤ 16) {size : ℕ}
    (hsize : (document els.bytes).length ≤ size) :
    validate (document els.bytes ++ tail) size = .ok true ∧
      walk (document els.bytes ++ tail) size = .ok (some (visitsOf .doc 0 els)) := by
  refine ⟨validate_document tail hclean hlen hdepth hsize, ?_⟩
  obtain ⟨-, hctor, -⟩ := atElements_ofBufferSize tail hlen hsize
  obtain ⟨k, r', last, hmoves, hnext, hk⟩ := moves_document tail hclean hlen hdepth hsize
  have hlast : walkLoop (document els.bytes ++ tail) (k + 1) 0 r' = .ok (some []) := by
    rw [walkLoop, hnext]
    simp only [ok_bind, if_true, pure_eq_ok]
  rw [walk, hctor, ok_bind, hk, walkLoop_of_moves hmoves hlast, List.append_nil]

/-- A number and a document in an array. -/
def arrayOfTwo : Elements :=
  .sub .array [97] (.leaf [48] (.i32 7) (.sub .doc [49] (.leaf [98] (.bool true) .nil) .nil)) .nil

theorem walk_document_array :
    validate (document arrayOfTwo.bytes ++ []) 33 = .ok true ∧
      walk (document arrayOfTwo.bytes ++ []) 33 = .ok (some [.enter elementArray [97] (-2),
        .value elementI32 [48] (.i32 7) 0, .enter elementDoc [49] 1,
        .value elementBool [98] (.bool true) (-2), .leave, .leave]) := by
  have hclean : arrayOfTwo.CleanKeys :=
    ⟨by decide, ⟨by decide, by decide, ⟨by decide, trivial⟩, trivial⟩, trivial⟩
  exact walk_document [] hclean (by decide) (by decide) (by decide)

end ScApi
