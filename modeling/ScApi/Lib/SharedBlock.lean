import Mathlib.Logic.Function.Basic
import ScApi.Lib.Runs

/-!
# A block published under a revision counter

One writer publishes version after version of a block: it makes the counter odd, writes cells in
any order, and makes the counter even again. Readers take no lock. A reader is a program whose only
effects are reads of the counter and of single cells, and between any two of its reads the writer may
make any number of steps. A reader that finds the same even counter twice has seen one version in
between, as long as the counter has not gone all the way round.

The versions published so far are kept as history; the counter itself is a 32-bit number.

## Main results

* `exec_bind` / `exec_counter`: a run of a sequence of two programs taken apart.
* `exec_since`: what a run can have done to a block that was not being modified.
* `exec_frozen` / `exec_recheck`: if the counter is the same as before, the program has read one
  block.
-/

namespace SharedBlock

open Runs

variable {ι : Type} {V : ι → Type} {α β : Type}

/-- A block with cells of given types, and all versions of it that have been published. -/
structure Block (V : ι → Type) where
  counter : UInt32
  cells : ∀ i, V i
  versions : List (∀ i, V i)

/-- A step of the writer. -/
inductive Write (V : ι → Type) where
  | start
  | cell (i : ι) (v : V i)
  | publish

namespace Block

/-- The block is being modified. -/
def Busy (b : Block V) : Prop :=
  b.counter.toNat % 2 = 1

instance (b : Block V) : Decidable b.Busy :=
  inferInstanceAs (Decidable (_ = _))

/-- A block with the given counter and cells, before anything else happens to it. -/
def initial (counter : UInt32) (cells : ∀ i, V i) : Block V where
  counter
  cells
  versions := if counter.toNat % 2 = 1 then [] else [cells]

/-- A step of a writer that follows the protocol. -/
def write [DecidableEq ι] (b : Block V) : Write V → Option (Block V)
  | .start => if b.Busy then none else some { b with counter := b.counter + 1 }
  | .cell i v => if b.Busy then some { b with cells := Function.update b.cells i v } else none
  | .publish =>
      if b.Busy then
        some { b with counter := b.counter + 1, versions := b.cells :: b.versions }
      else
        none

/-- Outside of a modification the cells hold a published version. -/
def Published (b : Block V) : Prop :=
  ¬ b.Busy → b.cells ∈ b.versions

/-- `b'` comes from `b`, which is not being modified, by `n` changes of the counter. -/
structure Since (b b' : Block V) (n : ℕ) : Prop where
  counter : b'.counter.toNat = (b.counter.toNat + n) % 4294967296
  versions : b'.versions.length = b.versions.length + n / 2
  unchanged : n = 0 → b' = b

end Block

/-- A program that reads a block. -/
inductive Reader (V : ι → Type) (α : Type) where
  | done (a : α)
  | counter (k : UInt32 → Reader V α)
  | cell (i : ι) (k : V i → Reader V α)

namespace Reader

/-- Two programs in sequence. -/
def bind : Reader V α → (α → Reader V β) → Reader V β
  | .done a, f => f a
  | .counter k, f => .counter fun s => (k s).bind f
  | .cell i k, f => .cell i fun v => (k v).bind f

instance : Monad (Reader V) where
  pure := .done
  bind := .bind

/-- Read the counter. -/
def readCounter : Reader V UInt32 :=
  .counter .done

/-- Read a cell. -/
def readCell (i : ι) : Reader V (V i) :=
  .cell i .done

/-- Read values into a buffer at the given indices, in this order. -/
def copyInto (read : ℕ → Reader V α) : List ℕ → List α → Reader V (List α)
  | [], buf => pure buf
  | i :: is, buf => do
      let x ← read i
      copyInto read is (buf.set i x)

/-- The result of the program on a block that does not change. -/
def eval (b : Block V) : Reader V α → α
  | .done a => a
  | .counter k => (k b.counter).eval b
  | .cell i k => (k (b.cells i)).eval b

/-- The result of the program when the block is another one at each of its reads. -/
def evalSeq : (ℕ → Block V) → Reader V α → α
  | _, .done a => a
  | bs, .counter k => (k (bs 0).counter).evalSeq fun n => bs (n + 1)
  | bs, .cell i k => (k ((bs 0).cells i)).evalSeq fun n => bs (n + 1)

/-- Every result that the program can have, whatever it reads, has the property. -/
def All (P : α → Prop) : Reader V α → Prop
  | .done a => P a
  | .counter k => ∀ s, (k s).All P
  | .cell _ k => ∀ v, (k v).All P

/-- The program does not read the counter. -/
def CellsOnly : Reader V α → Prop
  | .done _ => True
  | .counter _ => False
  | .cell _ k => ∀ v, (k v).CellsOnly

@[simp] theorem pure_eq_done (a : α) : (pure a : Reader V α) = .done a := rfl

@[simp] theorem done_bind (a : α) (f : α → Reader V β) : (Reader.done a >>= f) = f a := rfl

@[simp] theorem counter_bind (k : UInt32 → Reader V α) (f : α → Reader V β) :
    (Reader.counter k >>= f) = .counter fun s => k s >>= f := rfl

@[simp] theorem cell_bind (i : ι) (k : V i → Reader V α) (f : α → Reader V β) :
    (Reader.cell i k >>= f) = .cell i fun v => k v >>= f := rfl

@[simp] theorem readCounter_bind (f : UInt32 → Reader V β) :
    (readCounter >>= f) = .counter f := rfl

@[simp] theorem readCell_bind (i : ι) (f : V i → Reader V β) : (readCell i >>= f) = .cell i f := rfl

@[simp] theorem eval_done (b : Block V) (a : α) : (Reader.done a : Reader V α).eval b = a := rfl

@[simp] theorem eval_counter (b : Block V) (k : UInt32 → Reader V α) :
    (Reader.counter k).eval b = (k b.counter).eval b := rfl

@[simp] theorem eval_cell (b : Block V) (i : ι) (k : V i → Reader V α) :
    (Reader.cell i k).eval b = (k (b.cells i)).eval b := rfl

@[simp] theorem eval_bind (b : Block V) (x : Reader V α) (f : α → Reader V β) :
    (x >>= f).eval b = (f (x.eval b)).eval b := by
  induction x with
  | done a => rfl
  | counter k ih => exact ih b.counter
  | cell i k ih => exact ih (b.cells i)

/-- The history does not matter to a reader. -/
theorem eval_congr (b b' : Block V) (hcounter : b.counter = b'.counter)
    (hcells : b.cells = b'.cells) (x : Reader V α) : x.eval b = x.eval b' := by
  induction x with
  | done a => rfl
  | counter k ih =>
      rw [eval_counter, eval_counter, ih, hcounter]
  | cell i k ih =>
      rw [eval_cell, eval_cell, ih, hcells]

/-- **What a copy of an unchanging block holds**: at the given indices what has been read there. -/
theorem getElem?_copyInto (b : Block V) (read : ℕ → Reader V α) (is : List ℕ) (buf : List α)
    (i : ℕ) :
    ((copyInto read is buf).eval b)[i]? =
      if i ∈ is then buf[i]?.map fun _ => (read i).eval b else buf[i]? := by
  induction is generalizing buf with
  | nil => simp [copyInto]
  | cons j is ih =>
      rw [copyInto, eval_bind, ih, List.getElem?_set']
      by_cases hij : j = i
      · subst hij
        cases buf[j]? <;> simp
      · simp [hij, Ne.symm hij]

/-- What holds of all results holds whatever becomes of the block. -/
theorem All.evalSeq {P : α → Prop} {x : Reader V α} (h : x.All P) (bs : ℕ → Block V) :
    P (x.evalSeq bs) := by
  induction x generalizing bs with
  | done a => exact h
  | counter k ih => exact ih _ (h _) _
  | cell i k ih => exact ih _ (h _) _

theorem All.bind {P : α → Prop} {Q : β → Prop} {x : Reader V α} {f : α → Reader V β}
    (hx : x.All P) (h : ∀ a, P a → (f a).All Q) : (x >>= f).All Q := by
  induction x with
  | done a => exact h a hx
  | counter k ih => exact fun s => ih s (hx s)
  | cell i k ih => exact fun v => ih v (hx v)

theorem all_bind {P : β → Prop} {f : α → Reader V β} (h : ∀ a, (f a).All P) (x : Reader V α) :
    (x >>= f).All P := by
  induction x with
  | done a => exact h a
  | counter k ih => exact fun s => ih s
  | cell i k ih => exact fun v => ih v

theorem cellsOnly_copyInto {read : ℕ → Reader V α} {get : ℕ → ι}
    {ofCell : ∀ i, V (get i) → α} (hread : ∀ i, read i = .cell (get i) fun v => .done (ofCell i v))
    (is : List ℕ) (buf : List α) : (copyInto read is buf).CellsOnly := by
  induction is generalizing buf with
  | nil => exact trivial
  | cons j is ih =>
      rw [copyInto, hread]
      exact fun v => ih _

/-- A copy changes nothing but the bytes at the given indices, torn or not. -/
theorem all_copyInto (read : ℕ → Reader V α) {is : List ℕ} {n : ℕ} (his : ∀ i ∈ is, i < n)
    (buf : List α) :
    (copyInto read is buf).All fun out => out.length = buf.length ∧ out.drop n = buf.drop n := by
  induction is generalizing buf with
  | nil => exact ⟨rfl, rfl⟩
  | cons j is ih =>
      refine all_bind (fun x => ?_) _
      have hset := ih (fun i hi => his i (List.mem_cons_of_mem j hi)) (buf.set j x)
      rw [List.length_set, List.drop_set_of_lt (his j List.mem_cons_self)] at hset
      exact hset

end Reader

/-- A block and a reader of it. -/
structure Reading (V : ι → Type) (α : Type) where
  block : Block V
  reader : Reader V α
  /-- The number of versions there were when the reader last read the counter. -/
  mark : ℕ

/-- A step of the writer or of the reader. -/
inductive Label (V : ι → Type) where
  | write (x : Write V)
  | read

namespace Reading

variable [DecidableEq ι]

/-- One step. -/
def step (w : Reading V α) : Label V → Option (Reading V α)
  | .write x => (w.block.write x).map fun block => { w with block }
  | .read =>
      match w.reader with
      | .done _ => none
      | .counter k =>
          some { w with reader := k w.block.counter, mark := w.block.versions.length }
      | .cell i k => some { w with reader := k (w.block.cells i) }

end Reading

/-! ### The writer -/

section

variable {b b' b'' : Block V} {x : Write V} {n : ℕ}

theorem Block.published_initial (counter : UInt32) (cells : ∀ i, V i) :
    (Block.initial counter cells).Published := by
  intro h
  have hodd : ¬ counter.toNat % 2 = 1 := h
  rw [Block.initial, if_neg hodd]
  exact List.mem_singleton.mpr rfl

theorem Block.Since.refl (b : Block V) : b.Since b 0 where
  counter := by
    have := b.counter.toNat_lt
    omega
  versions := rfl
  unchanged := fun _ => rfl

/-- **The counter tells whether the block has changed**, unless it has gone all the way round. -/
theorem Block.Since.eq (hb : b.Since b' n) (hcounter : b'.counter = b.counter)
    (hversions : b'.versions.length < b.versions.length + 2147483648) : n = 0 := by
  have h := hb.counter
  have hlt := b.counter.toNat_lt
  have hlen := hb.versions
  rw [hcounter] at h
  omega

variable [DecidableEq ι]

/-- **What a step of the writer does.** -/
theorem Block.write_cases (h : b.write x = some b') :
    (¬ b.Busy ∧ b' = { b with counter := b.counter + 1 }) ∨
      (b.Busy ∧ ∃ i v, b' = { b with cells := Function.update b.cells i v }) ∨
      (b.Busy ∧ b' = { b with counter := b.counter + 1, versions := b.cells :: b.versions }) := by
  cases x with
  | start =>
      rw [Block.write, Option.ite_none_left_eq_some, Option.some.injEq] at h
      exact Or.inl ⟨h.1, h.2.symm⟩
  | cell i v =>
      rw [Block.write, Option.ite_none_right_eq_some, Option.some.injEq] at h
      exact Or.inr (Or.inl ⟨h.1, i, v, h.2.symm⟩)
  | publish =>
      rw [Block.write, Option.ite_none_right_eq_some, Option.some.injEq] at h
      exact Or.inr (Or.inr ⟨h.1, h.2.symm⟩)

/-- The next value of the counter. -/
theorem toNat_succ (c : UInt32) : (c + 1).toNat = (c.toNat + 1) % 4294967296 :=
  UInt32.toNat_add c 1

theorem Block.published_write (h : b.write x = some b') : b'.Published := by
  rcases Block.write_cases h with ⟨hidle, rfl⟩ | ⟨hbusy, i, v, rfl⟩ | ⟨hbusy, rfl⟩
  · intro hidle'
    refine absurd ?_ hidle'
    have hlt := b.counter.toNat_lt
    rw [Block.Busy] at hidle ⊢
    rw [toNat_succ]
    omega
  · exact fun hidle => absurd hbusy hidle
  · exact fun _ => List.mem_cons_self

theorem Block.Published.writes {xs : List (Write V)} (hb : b.Published)
    (h : exec Block.write b xs = some b') : b'.Published :=
  invariant_of_step (fun _ hstep => Block.published_write hstep) hb h

/-- Versions are never forgotten. -/
theorem Block.versions_write (h : b.write x = some b') : b.versions <:+ b'.versions := by
  rcases Block.write_cases h with ⟨-, rfl⟩ | ⟨-, i, v, rfl⟩ | ⟨-, rfl⟩
  · exact List.suffix_rfl
  · exact List.suffix_rfl
  · exact List.suffix_cons _ _

/-- **A step of the writer** after `n` changes of the counter. -/
theorem Block.Since.write (hidle : ¬ b.Busy) (hb : b.Since b' n) (h : b'.write x = some b'') :
    ∃ n', n' ≠ 0 ∧ b.Since b'' n' := by
  have hcounter := hb.counter
  have hversions := hb.versions
  rw [Block.Busy] at hidle
  rcases Block.write_cases h with ⟨hidle', rfl⟩ | ⟨hbusy, i, v, rfl⟩ | ⟨hbusy, rfl⟩
  · rw [Block.Busy] at hidle'
    refine ⟨n + 1, by omega, ?_, ?_, by omega⟩
    · dsimp only
      rw [toNat_succ]
      omega
    · dsimp only
      omega
  · rw [Block.Busy] at hbusy
    have hn : n ≠ 0 := by
      rintro rfl
      omega
    exact ⟨n, hn, hcounter, hversions, fun h0 => absurd h0 hn⟩
  · rw [Block.Busy] at hbusy
    refine ⟨n + 1, by omega, ?_, ?_, by omega⟩
    · dsimp only
      rw [toNat_succ]
      omega
    · rw [List.length_cons]
      omega

end

/-! ### Runs -/

section

variable [DecidableEq ι] {w w' w'' : Reading V α} {l : Label V} {ls : List (Label V)}

open Reading

/-- A step of the reader. -/
theorem Reading.step_read (h : w.step .read = some w') :
    w'.block = w.block ∧ w'.reader.eval w.block = w.reader.eval w.block := by
  rw [step] at h
  split at h
  · simp at h
  · rename_i k hk
    obtain rfl := Option.some.inj h
    rw [hk]
    exact ⟨rfl, rfl⟩
  · rename_i i k hk
    obtain rfl := Option.some.inj h
    rw [hk]
    exact ⟨rfl, rfl⟩

/-- A step of the writer leaves the reader where it is. -/
theorem Reading.step_write {x : Write V} (h : w.step (.write x) = some w') :
    ∃ b, w.block.write x = some b ∧ w' = { w with block := b } := by
  obtain ⟨b, hb, rfl⟩ := Option.map_eq_some_iff.mp h
  exact ⟨b, hb, rfl⟩

/-- Outside of a modification, the cells hold a published version all along a run. -/
theorem Block.Published.exec (hw : w.block.Published) (h : exec step w ls = some w') :
    w'.block.Published := by
  refine invariant_of_step (I := fun w => w.block.Published) ?_ hw h
  intro w l w' hw h
  cases l with
  | write x =>
      obtain ⟨b, hb, rfl⟩ := step_write h
      exact Block.published_write hb
  | read =>
      rw [(step_read h).1]
      exact hw

/-- Versions stay published all along a run. -/
theorem versions_exec (h : exec step w ls = some w') : w.block.versions <:+ w'.block.versions := by
  refine invariant_of_step (I := fun u => w.block.versions <:+ u.block.versions) ?_ List.suffix_rfl h
  intro u l u' hu hstep
  cases l with
  | write x =>
      obtain ⟨b, hb, rfl⟩ := step_write hstep
      exact hu.trans (Block.versions_write hb)
  | read =>
      rw [(step_read hstep).1]
      exact hu

/-- **What a run does to a block that was not being modified**: the counter counts the changes, and
if there was none, the program has read that block. -/
theorem exec_since (hidle : ¬ w.block.Busy) (h : exec step w ls = some w') :
    ∃ n, w.block.Since w'.block n ∧
      (n = 0 → w'.reader.eval w.block = w.reader.eval w.block) := by
  refine invariant_of_step (I := fun u => ∃ n, w.block.Since u.block n ∧
    (n = 0 → u.reader.eval w.block = w.reader.eval w.block)) ?_ ?_ h
  · rintro u l u' ⟨n, hsince, heval⟩ hstep
    cases l with
    | write x =>
        obtain ⟨b, hb, rfl⟩ := step_write hstep
        obtain ⟨n', hne, hsince'⟩ := hsince.write hidle hb
        exact ⟨n', hsince', fun h0 => absurd h0 hne⟩
    | read =>
        obtain ⟨hblock, hreader⟩ := step_read hstep
        refine ⟨n, hblock ▸ hsince, fun h0 => ?_⟩
        rw [hsince.unchanged h0] at hreader
        exact hreader.trans (heval h0)
  · exact ⟨0, .refl _, fun _ => rfl⟩

/-- **A run that ends with the counter it began with has seen one block**: the writer has done
nothing, and the program has the same result as on the block at the beginning. -/
theorem exec_frozen (hidle : ¬ w.block.Busy) (h : exec step w ls = some w')
    (hcounter : w'.block.counter = w.block.counter)
    (hversions : w'.block.versions.length < w.block.versions.length + 2147483648) :
    w'.block = w.block ∧ w'.reader.eval w.block = w.reader.eval w.block := by
  obtain ⟨n, hsince, heval⟩ := exec_since hidle h
  have hn := hsince.eq hcounter hversions
  exact ⟨hsince.unchanged hn, heval hn⟩

end

/-! ### Programs in sequence -/

section

variable [DecidableEq ι] {b b' : Block V} {m m' : ℕ} {ls : List (Label V)}

open Reading

/-- **A run of two programs in sequence** comes to a point where the second one begins. -/
theorem exec_bind {x : Reader V α} {f : α → Reader V β} {r : β}
    (h : exec step ⟨b, x >>= f, m⟩ ls = some ⟨b', .done r, m'⟩) :
    ∃ ls₁ ls₂ b₁ a m₁, ls = ls₁ ++ ls₂ ∧
      exec step ⟨b, x >>= f, m⟩ ls₁ = some ⟨b₁, f a, m₁⟩ ∧
      exec step ⟨b₁, f a, m₁⟩ ls₂ = some ⟨b', .done r, m'⟩ ∧
      (∀ P : α → Prop, x.All P → P a) ∧ (x.CellsOnly → m₁ = m) := by
  induction ls generalizing b x m with
  | nil =>
      cases x with
      | done a => exact ⟨[], [], b, a, m, rfl, rfl, h, fun _ => id, fun _ => rfl⟩
      | counter k => simp at h
      | cell i k => simp at h
  | cons l ls ih =>
      cases x with
      | done a => exact ⟨[], l :: ls, b, a, m, rfl, rfl, h, fun _ => id, fun _ => rfl⟩
      | counter k =>
          obtain ⟨w, hstep, hrun⟩ := exec_cons.mp h
          cases l with
          | write x =>
              obtain ⟨b₁, hb₁, rfl⟩ := step_write hstep
              obtain ⟨ls₁, ls₂, b₂, a, m₁, rfl, hx, hf, hall, hmark⟩ := ih (x := .counter k) hrun
              exact ⟨.write x :: ls₁, ls₂, b₂, a, m₁, rfl, exec_cons.mpr ⟨_, hstep, hx⟩, hf, hall,
                hmark⟩
          | read =>
              obtain rfl := Option.some.inj hstep
              obtain ⟨ls₁, ls₂, b₂, a, m₁, rfl, hx, hf, hall, hmark⟩ := ih hrun
              exact ⟨.read :: ls₁, ls₂, b₂, a, m₁, rfl, exec_cons.mpr ⟨_, rfl, hx⟩, hf,
                fun P hP => hall P (hP b.counter), False.elim⟩
      | cell i k =>
          obtain ⟨w, hstep, hrun⟩ := exec_cons.mp h
          cases l with
          | write x =>
              obtain ⟨b₁, hb₁, rfl⟩ := step_write hstep
              obtain ⟨ls₁, ls₂, b₂, a, m₁, rfl, hx, hf, hall, hmark⟩ := ih (x := .cell i k) hrun
              exact ⟨.write x :: ls₁, ls₂, b₂, a, m₁, rfl, exec_cons.mpr ⟨_, hstep, hx⟩, hf, hall,
                hmark⟩
          | read =>
              obtain rfl := Option.some.inj hstep
              obtain ⟨ls₁, ls₂, b₂, a, m₁, rfl, hx, hf, hall, hmark⟩ := ih hrun
              exact ⟨.read :: ls₁, ls₂, b₂, a, m₁, rfl, exec_cons.mpr ⟨_, rfl, hx⟩, hf,
                fun P hP => hall P (hP (b.cells i)), fun hx => hmark (hx (b.cells i))⟩

/-- A run of a program that first reads the counter. -/
theorem exec_counter {k : UInt32 → Reader V α} {r : α}
    (h : exec step ⟨b, .counter k, m⟩ ls = some ⟨b', .done r, m'⟩) :
    ∃ ls₁ ls₂ b₁, ls = ls₁ ++ .read :: ls₂ ∧
      exec step ⟨b, .counter k, m⟩ ls₁ = some ⟨b₁, .counter k, m⟩ ∧
      exec step ⟨b₁, k b₁.counter, b₁.versions.length⟩ ls₂ = some ⟨b', .done r, m'⟩ := by
  induction ls generalizing b with
  | nil => simp at h
  | cons l ls ih =>
      obtain ⟨w, hstep, hrun⟩ := exec_cons.mp h
      cases l with
      | write x =>
          obtain ⟨b₁, hb₁, rfl⟩ := step_write hstep
          obtain ⟨ls₁, ls₂, b₂, rfl, hwait, hrest⟩ := ih hrun
          exact ⟨.write x :: ls₁, ls₂, b₂, rfl, exec_cons.mpr ⟨_, hstep, hwait⟩, hrest⟩
      | read =>
          obtain rfl := Option.some.inj hstep
          exact ⟨[], ls, b, rfl, rfl, hrun⟩

/-- **A counter that is read again**: if it is the same as at the beginning of the run, the program
has read one block. -/
theorem exec_recheck {p : Reader V α} {k : UInt32 → Reader V α} {b₁ : Block V} {m₁ : ℕ}
    {ls₁ : List (Label V)} {r : α} (hidle : ¬ b.Busy)
    (hp : exec step ⟨b, p, m⟩ ls₁ = some ⟨b₁, .counter k, m₁⟩)
    (h : exec step ⟨b₁, .counter k, m₁⟩ ls = some ⟨b', .done r, m'⟩) :
    ∃ ls₂ ls₃ b₂, ls = ls₂ ++ .read :: ls₃ ∧
      exec step ⟨b, p, m⟩ (ls₁ ++ ls₂) = some ⟨b₂, .counter k, m₁⟩ ∧
      exec step ⟨b₂, k b₂.counter, b₂.versions.length⟩ ls₃ = some ⟨b', .done r, m'⟩ ∧
      (b₂.counter = b.counter → b₂.versions.length < b.versions.length + 2147483648 →
        b₂ = b ∧ (k b.counter).eval b = p.eval b) := by
  obtain ⟨ls₂, ls₃, b₂, rfl, hwait, hrest⟩ := exec_counter h
  have hall := exec_append.mpr ⟨_, hp, hwait⟩
  exact ⟨ls₂, ls₃, b₂, rfl, hall, hrest, fun hcounter hfew => exec_frozen hidle hall hcounter hfew⟩

/-- **A reader that is left alone comes to its end**, with the result it has on this block. -/
theorem exec_reads (x : Reader V α) :
    ∃ n m', exec step ⟨b, x, m⟩ (List.replicate n .read) = some ⟨b, .done (x.eval b), m'⟩ := by
  induction x generalizing m with
  | done a => exact ⟨0, m, rfl⟩
  | counter k ih =>
      obtain ⟨n, m', hrun⟩ := ih b.counter (m := b.versions.length)
      exact ⟨n + 1, m', exec_cons.mpr ⟨_, rfl, hrun⟩⟩
  | cell i k ih =>
      obtain ⟨n, m', hrun⟩ := ih (b.cells i) (m := m)
      exact ⟨n + 1, m', exec_cons.mpr ⟨_, rfl, hrun⟩⟩

/-- A reader that is left alone has no other result. -/
theorem eval_of_reads {n : ℕ} {x : Reader V α} {r : α}
    (h : exec step ⟨b, x, m⟩ (List.replicate n .read) = some ⟨b', .done r, m'⟩) :
    x.eval b = r := by
  induction n generalizing x m with
  | zero =>
      obtain rfl : x = .done r := congrArg Reading.reader (Option.some.inj h)
      rfl
  | succ n ih =>
      obtain ⟨⟨b₁, x₁, m₁⟩, hstep, hrun⟩ := exec_cons.mp h
      obtain ⟨hblock, heval⟩ := step_read hstep
      obtain rfl : b₁ = b := hblock
      rw [← heval]
      exact ih hrun

/-- A finished program stays finished. -/
theorem exec_done {a : α} {w : Reading V α} (h : exec step ⟨b, .done a, m⟩ ls = some w) :
    w.reader = .done a := by
  refine invariant_of_step (I := fun w => w.reader = .done a) ?_ rfl h
  intro w l w' hw h
  cases l with
  | write x =>
      obtain ⟨b, -, rfl⟩ := step_write h
      exact hw
  | read =>
      rw [step, hw] at h
      simp at h

end

end SharedBlock
