import ScApi.Lib.Bson

/-!
# The last element that sets a field

A reader that goes through the elements of a document and sets fields by their keys leaves in each field
what the last element has set. With distinct keys, that is what is found under the key.

## Main results

* `foldl_sets`: what a fold leaves when each element sets some fields.
* `lastSet_named`: with distinct keys, what is set last under a key is what is found under it.
-/

namespace Bson

namespace Value

/-- The boolean, if the value is one. -/
def bool? : Value → Option Bool
  | leaf (.bool b) => some b
  | _ => none

/-- The elements of a document. -/
def document? : Value → Option Elements
  | sub .doc body => some body
  | _ => none

/-- The elements of an array. -/
def array? : Value → Option Elements
  | sub .array body => some body
  | _ => none

end Value

/-- What an element with a key stands for. -/
def named {β : Type} (key : List UInt8) (g : Value → Option β) (e : Entry) : Option β :=
  if e.1 = key then g e.2 else none

section

variable {σ α β : Type} {key : List UInt8} {g : Value → Option β} {e : Entry}

theorem named_eq_none_of_key (h : e.1 ≠ key) : named key g e = none :=
  if_neg h

/-- What the last of some elements sets, if one sets anything. -/
def lastSet (select : α → Option β) (l : List α) : Option β :=
  (l.filterMap select).getLast?

variable {select : α → Option β}

theorem lastSet_cons (a : α) (l : List α) :
    lastSet select (a :: l) = (lastSet select l).or (select a) := by
  rw [lastSet, lastSet, List.filterMap_cons]
  cases select a with
  | none => rw [Option.or_none]
  | some b =>
      rw [List.getLast?_cons]
      cases (l.filterMap select).getLast? <;> rfl

theorem lastSet_singleton (a : α) : lastSet select [a] = select a := by
  rw [lastSet_cons]
  rfl

/-- **A fold in which each element sets some fields** sets those that the elements set together. -/
theorem foldl_sets {after : σ → List α → σ} (hnil : ∀ s, after s [] = s)
    (hcons : ∀ s a l, after s (a :: l) = after (after s [a]) l) (l : List α) (s : σ) :
    l.foldl (fun s a => after s [a]) s = after s l := by
  induction l generalizing s with
  | nil => exact (hnil s).symm
  | cons a l ih =>
      rw [List.foldl_cons, ih]
      exact (hcons s a l).symm

theorem lookup_eq_none_of_notMem {entries : List Entry} (h : key ∉ entries.map Prod.fst) :
    entries.lookup key = none := by
  rw [List.lookup_eq_none_iff]
  intro f hf
  have hne : key ≠ f.1 := fun heq => h (heq ▸ List.mem_map_of_mem (f := Prod.fst) hf)
  simpa using hne

/-- **With distinct keys, what is set last under a key is what is found under it.** -/
theorem lastSet_named {entries : List Entry} (hkeys : (entries.map Prod.fst).Nodup) :
    lastSet (named key g) entries = (entries.lookup key).bind g := by
  induction entries with
  | nil => rfl
  | cons e entries ih =>
      obtain ⟨hnew, hrest⟩ := List.nodup_cons.mp hkeys
      rw [lastSet_cons, ih hrest, List.lookup_cons]
      by_cases hkey : key = e.1
      · subst hkey
        rw [lookup_eq_none_of_notMem hnew, Option.bind_none, Option.none_or, beq_self_eq_true, named, if_pos rfl]
        rfl
      · rw [named_eq_none_of_key (Ne.symm hkey), Option.or_none, beq_eq_false_iff_ne.mpr hkey]

end

end Bson
