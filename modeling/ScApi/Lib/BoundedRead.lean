import ScApi.Lib.Bytes

/-!
# Reads from a bounded memory

A memory is the list of the bytes that may be read from some pointer on. A computation that
reads it either returns a value or stops: at the first byte it would read outside the
memory, at a null pointer, or when a loop has used up its fuel. A program is *safe* on a
memory when it does not stop, so every safety statement is an equation `… = .ok _`.

## Main results

* `bind_eq_ok` / `bind_eq_error`: a sequence of two reads taken apart.
* `bytesAt_eq_ok_iff`: a run of bytes can be read exactly when it lies inside the memory.
* `bytesAt_append` / `i32At_append` / `firstNul_append`: what is read from between other bytes.
* `findNul_eq_some_iff`: what a bounded search for a NUL byte finds.
* `cString_eq_take_iff`: when the C string at an index is a given number of bytes.
* `cStringUpTo_eq_ok_iff`: what is read of a string in a field that need not end it.
-/

namespace BoundedRead

open Bytes

/-- Why a computation that reads memory stops without a value. -/
inductive Stop where
  | outOfBounds (index : ℤ)
  | nullPointer
  | outOfFuel
  deriving DecidableEq, Repr

/-- A computation that reads memory. -/
abbrev Read (α : Type) := Except Stop α

variable {α β : Type}

theorem bind_eq_ok {ε : Type} {x : Except ε α} {f : α → Except ε β} {b : β} :
    x >>= f = .ok b ↔ ∃ a, x = .ok a ∧ f a = .ok b := by
  cases x with
  | error e => simp [bind, Except.bind]
  | ok a => simp [bind, Except.bind]

theorem bind_eq_error {x : Read α} {f : α → Read β} {e : Stop} :
    x >>= f = .error e ↔ x = .error e ∨ ∃ a, x = .ok a ∧ f a = .error e := by
  cases x with
  | error e => simp [bind, Except.bind]
  | ok a => simp [bind, Except.bind]

@[simp] theorem ok_bind (a : α) (f : α → Read β) : (.ok a : Read α) >>= f = f a := rfl

@[simp] theorem error_bind (e : Stop) (f : α → Read β) :
    (.error e : Read α) >>= f = .error e := rfl

@[simp] theorem pure_eq_ok (a : α) : (pure a : Read α) = .ok a := rfl

@[simp] theorem throw_eq_error (e : Stop) : (throw e : Read α) = .error e := rfl

/-! ### Single bytes and runs of bytes -/

/-- The byte at index `i` of the memory. -/
def byteAt (mem : List UInt8) (i : ℤ) : Read UInt8 :=
  if 0 ≤ i then
    match mem[i.toNat]? with
    | some b => pure b
    | none => throw (.outOfBounds i)
  else
    throw (.outOfBounds i)

/-- The `n` bytes from index `i` of the memory on. -/
def bytesAt (mem : List UInt8) (i : ℤ) (n : ℕ) : Read (List UInt8) :=
  if 0 ≤ i ∧ i + n ≤ mem.length then
    pure ((mem.drop i.toNat).take n)
  else
    throw (.outOfBounds i)

/-- The 32-bit integer stored at index `i` of the memory. -/
def i32At (mem : List UInt8) (i : ℤ) : Read ℤ := do
  let bytes ← bytesAt mem i 4
  pure (toI32 bytes)

theorem byteAt_eq_ok_iff {mem : List UInt8} {i : ℤ} {b : UInt8} :
    byteAt mem i = .ok b ↔ 0 ≤ i ∧ mem[i.toNat]? = some b := by
  unfold byteAt
  by_cases hi : 0 ≤ i
  · cases hm : mem[i.toNat]? <;> simp [hi]
  · simp [hi]

theorem byteAt_ok_of_range {mem : List UInt8} {i : ℤ} (h0 : 0 ≤ i) (h1 : i < mem.length) :
    ∃ b, byteAt mem i = .ok b :=
  ⟨mem[i.toNat], byteAt_eq_ok_iff.mpr ⟨h0, List.getElem?_eq_getElem (by omega)⟩⟩

theorem range_of_byteAt {mem : List UInt8} {i : ℤ} {b : UInt8} (h : byteAt mem i = .ok b) :
    0 ≤ i ∧ i < mem.length := by
  obtain ⟨h0, hget⟩ := byteAt_eq_ok_iff.mp h
  obtain ⟨hlt, -⟩ := List.getElem?_eq_some_iff.mp hget
  omega

theorem byteAt_ne_outOfFuel (mem : List UInt8) (i : ℤ) : byteAt mem i ≠ .error .outOfFuel := by
  unfold byteAt
  split
  · split <;> simp
  · simp

/-- **A run of bytes can be read exactly when it lies inside the memory.** -/
theorem bytesAt_eq_ok_iff {mem : List UInt8} {i : ℤ} {n : ℕ} {l : List UInt8} :
    bytesAt mem i n = .ok l ↔
      0 ≤ i ∧ i + n ≤ mem.length ∧ l = (mem.drop i.toNat).take n := by
  unfold bytesAt
  by_cases h : 0 ≤ i ∧ i + n ≤ mem.length
  · simp [h, eq_comm]
  · rw [if_neg h]
    simp only [throw_eq_error, reduceCtorEq, false_iff]
    rintro ⟨h0, h1, -⟩
    exact h ⟨h0, h1⟩

theorem i32At_ok_of_range {mem : List UInt8} {i : ℤ} (h0 : 0 ≤ i) (h1 : i + 4 ≤ mem.length) :
    ∃ n, i32At mem i = .ok n :=
  ⟨_, bind_eq_ok.mpr ⟨_, bytesAt_eq_ok_iff.mpr ⟨h0, by exact_mod_cast h1, rfl⟩, rfl⟩⟩

theorem range_of_i32At {mem : List UInt8} {i n : ℤ} (h : i32At mem i = .ok n) :
    0 ≤ i ∧ i + 4 ≤ mem.length := by
  obtain ⟨l, hl, -⟩ := bind_eq_ok.mp h
  obtain ⟨h0, h1, -⟩ := bytesAt_eq_ok_iff.mp hl
  exact ⟨h0, by exact_mod_cast h1⟩

theorem i32At_range {mem : List UInt8} {i n : ℤ} (h : i32At mem i = .ok n) :
    -2147483648 ≤ n ∧ n < 2147483648 := by
  obtain ⟨l, -, hn⟩ := bind_eq_ok.mp h
  obtain rfl : toI32 l = n := Except.ok.inj hn
  exact toI32_range l

theorem i32At_ne_outOfFuel (mem : List UInt8) (i : ℤ) : i32At mem i ≠ .error .outOfFuel := by
  unfold i32At bytesAt
  split <;> simp

/-- **Bytes between others** are read. -/
theorem bytesAt_append (l bytes l' : List UInt8) :
    bytesAt (l ++ bytes ++ l') l.length bytes.length = .ok bytes := by
  refine bytesAt_eq_ok_iff.mpr ⟨by omega, ?_, ?_⟩
  · simp only [List.length_append]
    omega
  · rw [Int.toNat_natCast, List.append_assoc, List.drop_left, List.take_left]

theorem byteAt_append (l : List UInt8) (b : UInt8) (l' : List UInt8) :
    byteAt (l ++ b :: l') l.length = .ok b := by
  refine byteAt_eq_ok_iff.mpr ⟨by omega, ?_⟩
  rw [Int.toNat_natCast, List.getElem?_append_right le_rfl, Nat.sub_self, List.getElem?_cons_zero]

/-- The four bytes of a number between others. -/
theorem i32At_append (l : List UInt8) {n : ℕ} (h : n < 2147483648) (l' : List UInt8) :
    i32At (l ++ toLe 4 n ++ l') l.length = .ok n := by
  have hread := bytesAt_append l (toLe 4 n) l'
  have hpow : n < 256 ^ 4 := h.trans (by norm_num)
  rw [length_toLe] at hread
  rw [i32At]
  refine bind_eq_ok.mpr ⟨_, hread, ?_⟩
  rw [pure_eq_ok, toI32, ofLe_toLe_of_lt hpow, wrap32_of_range (by omega) (by omega)]

/-! ### NUL-terminated strings -/

/-- The bytes of the memory from index `a` up to, not including, index `b`. -/
def slice (mem : List UInt8) (a b : ℤ) : List UInt8 :=
  (mem.drop a.toNat).take (b - a).toNat

/-- The index of the first NUL byte among the `n` bytes from index `i` on, if there is one;
bytes after it are not read. -/
def findNul (mem : List UInt8) : ℕ → ℤ → Read (Option ℤ)
  | 0, _ => pure none
  | n + 1, i => do
      let b ← byteAt mem i
      if b = 0 then pure (some i) else findNul mem n (i + 1)

/-- The C string at index `i`: the bytes before the first NUL byte. A memory that ends before
a NUL byte is read past its end. -/
def cString (mem : List UInt8) (i : ℤ) : Read (List UInt8) :=
  if 0 ≤ i ∧ 0 ∈ mem.drop i.toNat then
    pure ((mem.drop i.toNat).takeWhile (· ≠ 0))
  else
    throw (.outOfBounds (max i mem.length))

theorem findNul_ok_of_range {mem : List UInt8} {n : ℕ} {i : ℤ} (h0 : 0 ≤ i)
    (h1 : i + n ≤ mem.length) : ∃ o, findNul mem n i = .ok o := by
  induction n generalizing i with
  | zero => exact ⟨none, rfl⟩
  | succ n ih =>
      push_cast at h1
      have hi : i < mem.length := by omega
      obtain ⟨b, hb⟩ := byteAt_ok_of_range h0 hi
      by_cases hz : b = 0
      · exact ⟨some i, by simp [findNul, hb, hz]⟩
      · obtain ⟨o, ho⟩ := ih (i := i + 1) (by omega) (by omega)
        exact ⟨o, by simp [findNul, hb, hz, ho]⟩

theorem findNul_ne_outOfFuel (mem : List UInt8) (n : ℕ) (i : ℤ) :
    findNul mem n i ≠ .error .outOfFuel := by
  induction n generalizing i with
  | zero => simp [findNul]
  | succ n ih =>
      intro h
      rw [findNul, bind_eq_error] at h
      rcases h with h | ⟨b, -, h⟩
      · exact byteAt_ne_outOfFuel _ _ h
      · split at h
        · simp at h
        · exact ih _ h

/-- `k` is the first index from `i` on that holds a NUL byte, and it lies before `e`. -/
structure FirstNul (mem : List UInt8) (i e k : ℤ) : Prop where
  lower : i ≤ k
  upper : k < e
  nul : byteAt mem k = .ok 0
  before : ∀ j, i ≤ j → j < k → ∃ b, byteAt mem j = .ok b ∧ b ≠ 0

/-- **What the search finds**: the first index that holds a NUL byte. -/
theorem findNul_eq_some_iff {mem : List UInt8} {n : ℕ} {i k : ℤ} :
    findNul mem n i = .ok (some k) ↔ FirstNul mem i (i + n) k := by
  induction n generalizing i with
  | zero =>
      constructor
      · intro h
        simp [findNul] at h
      · rintro ⟨h1, h2, -, -⟩
        push_cast at h2
        omega
  | succ n ih =>
      constructor
      · intro h
        obtain ⟨b, hb, h⟩ := bind_eq_ok.mp h
        by_cases hz : b = 0
        · rw [if_pos hz] at h
          obtain rfl : i = k := by simpa using h
          exact ⟨le_rfl, by omega, hz ▸ hb, fun j h1 h2 => by omega⟩
        · rw [if_neg hz] at h
          obtain ⟨h1, h2, h3, h4⟩ := ih.mp h
          refine ⟨by omega, by push_cast; omega, h3, fun j hj1 hj2 => ?_⟩
          rcases eq_or_lt_of_le hj1 with rfl | hlt
          · exact ⟨b, hb, hz⟩
          · exact h4 j (by omega) hj2
      · rintro ⟨h1, h2, h3, h4⟩
        rcases eq_or_lt_of_le h1 with rfl | hlt
        · rw [findNul, h3, ok_bind, if_pos rfl, pure_eq_ok]
        · obtain ⟨b, hb, hz⟩ := h4 i le_rfl hlt
          rw [findNul, hb, ok_bind, if_neg hz]
          push_cast at h2
          exact ih.mpr ⟨by omega, by omega, h3, fun j hj1 hj2 => h4 j (by omega) hj2⟩

/-- **The end of a string between other bytes.** -/
theorem firstNul_append (l : List UInt8) {key : List UInt8} (h : 0 ∉ key) (l' : List UInt8) {e : ℤ}
    (he : (l.length : ℤ) + key.length < e) :
    FirstNul (l ++ key ++ 0 :: l') l.length e (l.length + key.length : ℕ) := by
  refine ⟨by omega, by omega, ?_, fun j h1 h2 => ?_⟩
  · rw [← List.length_append]
    exact byteAt_append (l ++ key) 0 l'
  · obtain ⟨k, rfl⟩ := Int.le.dest h1
    have hk : k < key.length := by omega
    refine ⟨key[k], byteAt_eq_ok_iff.mpr ⟨by omega, ?_⟩, ?_⟩
    · have hidx : ((l.length : ℤ) + k).toNat = l.length + k := by omega
      rw [hidx, List.append_assoc, List.getElem?_append_right (by omega), Nat.add_sub_cancel_left,
        List.getElem?_append_left hk, List.getElem?_eq_getElem hk]
    · exact fun hzero => h (hzero ▸ List.getElem_mem hk)

theorem takeWhile_eq_take_iff {l : List UInt8} {n : ℕ} (h : 0 ∈ l) :
    l.takeWhile (· ≠ 0) = l.take n ↔ l[n]? = some 0 ∧ 0 ∉ l.take n := by
  induction l generalizing n with
  | nil => exact absurd h (List.not_mem_nil)
  | cons b l ih =>
      by_cases hb : b = 0
      · subst hb
        cases n <;> simp
      · have hmem : 0 ∈ l := (List.mem_cons.mp h).resolve_left (Ne.symm hb)
        cases n with
        | zero => simp [hb]
        | succ n => simpa [hb, Ne.symm hb] using ih hmem

/-- **A C string is the first bytes of the memory** when these have no NUL byte among them, and one
behind them. -/
theorem cString_eq_take_iff {mem : List UInt8} {i : ℤ} {n : ℕ} (h0 : 0 ≤ i) :
    cString mem i = .ok ((mem.drop i.toNat).take n) ↔
      byteAt mem (i + n) = .ok 0 ∧ 0 ∉ (mem.drop i.toNat).take n := by
  have hidx : (mem.drop i.toNat)[n]? = mem[(i + n).toNat]? := by
    rw [List.getElem?_drop, Int.toNat_add h0 (by omega), Int.toNat_natCast]
  have hbyte : byteAt mem (i + n) = .ok 0 ↔ (mem.drop i.toNat)[n]? = some 0 := by
    rw [byteAt_eq_ok_iff, hidx, and_iff_right (by omega)]
  rw [hbyte, cString]
  by_cases hmem : 0 ∈ mem.drop i.toNat
  · rw [if_pos ⟨h0, hmem⟩, pure_eq_ok, Except.ok.injEq, takeWhile_eq_take_iff hmem]
  · rw [if_neg (fun h => hmem h.2)]
    exact iff_of_false (by simp) fun h => hmem (List.mem_of_getElem? h.1)

/-! ### Strings in fields -/

/-- The string at index `i` in a field of `n` bytes: up to the first NUL byte, behind which nothing is
read, or the whole field. -/
def cStringUpTo (mem : List UInt8) : ℕ → ℕ → Read (List UInt8)
  | 0, _ => pure []
  | n + 1, i => do
      let b ← byteAt mem i
      if b = 0 then pure []
      else do
        let rest ← cStringUpTo mem n (i + 1)
        pure (b :: rest)

/-- **What is read of a string in a field**: the field lies in the memory, or its first NUL byte
does. -/
theorem cStringUpTo_eq_ok_iff {mem : List UInt8} {n i : ℕ} {l : List UInt8} (hi : i ≤ mem.length) :
    cStringUpTo mem n i = .ok l ↔
      (0 ∈ (mem.drop i).take n ∨ i + n ≤ mem.length) ∧
        l = ((mem.drop i).take n).takeWhile (· ≠ 0) := by
  induction n generalizing i l with
  | zero => simp [cStringUpTo, hi, eq_comm]
  | succ n ih =>
      rcases Nat.lt_or_ge i mem.length with hlt | hge
      · have hbyte : byteAt mem i = .ok mem[i] :=
          byteAt_eq_ok_iff.mpr ⟨Int.natCast_nonneg i, List.getElem?_eq_getElem hlt⟩
        rw [cStringUpTo, hbyte, ok_bind, List.drop_eq_getElem_cons hlt, List.take_succ_cons,
          List.takeWhile_cons, List.mem_cons]
        by_cases hzero : mem[i] = 0
        · simp [hzero, eq_comm]
        · have hfirst : (0 = mem[i] ∨ 0 ∈ (mem.drop (i + 1)).take n) ↔ 0 ∈ (mem.drop (i + 1)).take n :=
            or_iff_right fun h => hzero h.symm
          rw [if_neg hzero, bind_eq_ok, if_pos (by simpa using hzero), hfirst,
            show i + (n + 1) = i + 1 + n by omega]
          constructor
          · rintro ⟨rest, hrest, hl⟩
            obtain ⟨hinside, rfl⟩ := (ih hlt).mp hrest
            exact ⟨hinside, (Except.ok.inj hl).symm⟩
          · rintro ⟨hinside, rfl⟩
            exact ⟨_, (ih hlt).mpr ⟨hinside, rfl⟩, rfl⟩
      · rw [List.drop_of_length_le hge, cStringUpTo, bind_eq_ok]
        constructor
        · rintro ⟨b, hb, -⟩
          have hrange := range_of_byteAt hb
          omega
        · rintro ⟨hinside | hinside, -⟩
          · exact absurd hinside (by simp)
          · omega

end BoundedRead
