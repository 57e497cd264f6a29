import Mathlib.Data.List.ReduceOption
import ScApi.Lib.Locks
import ScApi.Lib.Runs

/-!
# The order of the locks

Threads call `openSession`, `getOpenSession` and `createEventQueue` of one `ApiCore`, and `close` and
`registerToControl` of its sessions. These calls take the mutex of the API, the mutex of a session and
the mutex of the event producer, some of them one inside the other. Whoever gives up the last
reference to a session runs its destructor, which is a call of `close`; `openSession` does so while it
holds the mutex of the API.

## Main results

* `entangled_createSessionLock`, `entangled_sessionClosedLock`: who waits for whom.
* `step_invariant`: what a step keeps.
* `step_deadlocked_iff`: which steps end in a deadlock.
* `deadlocked_iff`: which runs do.
-/

namespace ScApi

open Runs Locks

/-- The mutexes. A session is named by its place in the order in which sessions are opened. -/
inductive ApiMutex where
  | api
  | session (s : ℕ)
  | producer
  deriving DecidableEq, Repr

/-- Who runs `Session::close`: a caller, or the destructor, when a handle is given up or when
`openSession` replaces the active session. -/
inductive Closer where
  | caller
  | handle
  | openSession
  deriving DecidableEq, Repr

/-- The points of the calls at which a mutex is about to be taken or given back, and the one at which
`openSession` publishes the session that it has constructed. -/
inductive LockPoint where
  | idle
  | closeLock (closer : Closer) (s : ℕ)
  | sessionClosedLock (closer : Closer) (s : ℕ)
  | sessionClosedUnlock (closer : Closer) (s : ℕ)
  | closeUnlock (closer : Closer) (s : ℕ)
  | createLock
  | createSessionLock (s : ℕ)
  | createSessionUnlock (s : ℕ)
  | createProducerLock
  | createProducerUnlock
  | createUnlock
  | getLock
  | getUnlock
  | openLock (ok : Bool)
  | openPublish
  | openProducerLock
  | openProducerUnlock
  | openUnlock (ok : Bool)
  | registerLock (s : ℕ) (ok : Bool)
  | registerProducerLock (s : ℕ)
  | registerProducerUnlock (s : ℕ)
  | registerUnlock (s : ℕ)
  deriving DecidableEq, Repr

/-- What is held around `close`. -/
def Closer.held : Closer → List ApiMutex
  | .openSession => [.api]
  | .caller | .handle => []

namespace LockPoint

/-- The mutexes that a thread holds. -/
def held : LockPoint → List ApiMutex
  | closeLock closer _ => closer.held
  | sessionClosedLock closer s | closeUnlock closer s => .session s :: closer.held
  | sessionClosedUnlock closer s => .api :: .session s :: closer.held
  | createSessionUnlock s => [.session s, .api]
  | createSessionLock _ | createProducerLock | createUnlock | getUnlock | openPublish
  | openProducerLock | openUnlock _ => [.api]
  | createProducerUnlock | openProducerUnlock => [.producer, .api]
  | registerProducerLock s | registerUnlock s => [.session s]
  | registerProducerUnlock s => [.producer, .session s]
  | idle | createLock | getLock | openLock _ | registerLock _ _ => []

/-- The mutex that a thread is about to take. -/
def wants : LockPoint → Option ApiMutex
  | closeLock _ s | createSessionLock s | registerLock s _ => some (.session s)
  | sessionClosedLock _ _ | createLock | getLock | openLock _ => some .api
  | createProducerLock | openProducerLock | registerProducerLock _ => some .producer
  | idle | sessionClosedUnlock _ _ | closeUnlock _ _ | createSessionUnlock _ | createProducerUnlock
  | createUnlock | getUnlock | openPublish | openProducerUnlock | openUnlock _
  | registerProducerUnlock _ | registerUnlock _ => none

/-- The session to which the call has a reference of its own, or which it is destroying. The session
that `openSession` destroys is left out. -/
def uses : LockPoint → Option ℕ
  | closeLock closer s | sessionClosedLock closer s | sessionClosedUnlock closer s
  | closeUnlock closer s => if closer = .openSession then none else some s
  | registerLock s _ | registerProducerLock s | registerProducerUnlock s | registerUnlock s => some s
  | _ => none

end LockPoint

open LockPoint

/-- The mutexes of the calls. -/
abbrev lockDiscipline : Discipline ApiMutex LockPoint :=
  ⟨held, wants⟩

/-- What the calls read and write of a session: whether `state_` is `invalid`, and whether `api_` is
set. -/
structure LockedSession where
  invalid : Bool := false
  api : Bool := true
  deriving DecidableEq, Repr

/-- What the threads share. A handle is a reference to a session that is not in use: one of a user, or
one in an event that waits in a queue. -/
structure LockShared where
  sessions : List LockedSession := []
  active : Option ℕ := none
  handles : List ℕ := []
  /-- The number of queues that are attached to the producer. -/
  queues : ℕ := 0
  deriving DecidableEq, Repr

namespace LockShared

/-- `close` goes on to `sessionClosed`. -/
def closable (g : LockShared) (s : ℕ) : Bool :=
  (g.sessions[s]?).any fun x => ¬ x.invalid ∧ x.api

/-- `notifyEvent`: every queue gets an event that refers to the session. -/
def notifyEvent (s : Option ℕ) (g : LockShared) : LockShared :=
  { g with handles := g.handles ++ (List.replicate g.queues s).reduceOption }

end LockShared

/-- Nobody has a reference to the session, but for `active_session_`. -/
def Unreferenced (threads : List LockPoint) (g : LockShared) (s : ℕ) : Prop :=
  s ∉ g.handles ∧ ∀ p ∈ threads, p.uses ≠ some s

instance (threads : List LockPoint) (g : LockShared) (s : ℕ) :
    Decidable (Unreferenced threads g s) :=
  inferInstanceAs (Decidable (_ ∧ _))

/-- Where a thread gets from a point, when it can go on. -/
def next (threads : List LockPoint) (g : LockShared) : LockPoint → LockPoint
  | .idle => .idle
  | .closeLock closer s => if g.closable s then .sessionClosedLock closer s else .closeUnlock closer s
  | .sessionClosedLock closer s => .sessionClosedUnlock closer s
  | .sessionClosedUnlock closer s => .closeUnlock closer s
  | .closeUnlock closer _ => if closer = .openSession then .openProducerLock else .idle
  | .createLock =>
      match g.active with
      | some s => .createSessionLock s
      | none => .createProducerLock
  | .createSessionLock s => .createSessionUnlock s
  | .createSessionUnlock _ => .createProducerLock
  | .createProducerLock => .createProducerUnlock
  | .createProducerUnlock => .createUnlock
  | .createUnlock => .idle
  | .getLock => .getUnlock
  | .getUnlock => .idle
  | .openLock ok => if ok then .openPublish else .openUnlock false
  | .openPublish =>
      match g.active with
      | some s => if Unreferenced threads g s then .closeLock .openSession s else .openProducerLock
      | none => .openProducerLock
  | .openProducerLock => .openProducerUnlock
  | .openProducerUnlock => .openUnlock true
  -- the handle that is returned is fetched in a section of its own
  | .openUnlock ok => if ok then .getLock else .idle
  | .registerLock s ok => if ok then .registerProducerLock s else .registerUnlock s
  | .registerProducerLock s => .registerProducerUnlock s
  | .registerProducerUnlock s => .registerUnlock s
  | .registerUnlock _ => .idle

/-- What a thread does to the shared data on this way. -/
def effect (g : LockShared) : LockPoint → LockShared
  | .closeLock _ s => { g with sessions := g.sessions.modify s fun x => { x with invalid := true } }
  | .sessionClosedLock _ s => { g with active := if g.active = some s then none else g.active }
  | .sessionClosedUnlock _ s =>
      { g with sessions := g.sessions.modify s fun x => { x with api := false } }
  | .closeUnlock closer s =>
      { g with handles := g.handles ++ if closer = .caller then [s] else [] }
  -- the initial event of the new queue
  | .createSessionLock s => { g with handles := g.handles ++ [s] }
  | .createProducerLock => { g with queues := g.queues + 1 }
  | .getLock => { g with handles := g.handles ++ g.active.toList }
  | .openPublish => { g with sessions := g.sessions ++ [{}], active := some g.sessions.length }
  | .openProducerLock => g.notifyEvent g.active
  | .registerLock s ok =>
      { g with sessions := g.sessions.modify s fun x => { x with invalid := x.invalid && !ok } }
  | .registerProducerLock s => g.notifyEvent (some s)
  | .registerUnlock s => { g with handles := g.handles ++ [s] }
  | .idle | .createLock | .createSessionUnlock _ | .createProducerUnlock | .createUnlock
  | .getUnlock | .openLock _ | .openProducerUnlock | .openUnlock _ | .registerProducerUnlock _ => g

/-- A call. `ok` says whether the backend lets it succeed; `dropHandle` gives up a reference. -/
inductive LockCall where
  | close (s : ℕ)
  | registerToControl (s : ℕ) (ok : Bool)
  | dropHandle (s : ℕ)
  | createEventQueue
  | getOpenSession
  | openSession (ok : Bool)
  deriving DecidableEq, Repr

/-- The threads and what they share. -/
structure LockSystem where
  shared : LockShared := {}
  threads : List LockPoint
  deriving DecidableEq, Repr

/-- A step: a thread begins a call or goes on with one, or a handle is copied. -/
inductive LockStep where
  | call (i : ℕ) (c : LockCall)
  | run (i : ℕ)
  | copyHandle (s : ℕ)
  deriving DecidableEq, Repr

namespace LockSystem

/-- The begin of a call, which takes the handle that it is given. -/
def beginCall (threads : List LockPoint) (g : LockShared) : LockCall → LockPoint × LockShared
  | .close s => (.closeLock .caller s, { g with handles := g.handles.erase s })
  | .registerToControl s ok => (.registerLock s ok, { g with handles := g.handles.erase s })
  | .dropHandle s =>
      let g' := { g with handles := g.handles.erase s }
      (if Unreferenced threads g' s ∧ g.active ≠ some s then .closeLock .handle s else .idle, g')
  | .createEventQueue => (.createLock, g)
  | .getOpenSession => (.getLock, g)
  | .openSession ok => (.openLock ok, g)

/-- The handle that a call is given. -/
def handleOf : LockCall → Option ℕ
  | .close s | .registerToControl s _ | .dropHandle s => some s
  | .createEventQueue | .getOpenSession | .openSession _ => none

/-- A thread gets to a point. -/
def moved (i : ℕ) (r : LockPoint × LockShared) (w : LockSystem) : LockSystem where
  shared := r.2
  threads := w.threads.set i r.1

/-- One step. -/
def step (w : LockSystem) : LockStep → Option LockSystem
  | .call i c =>
      if w.threads[i]? = some .idle ∧ ∀ s ∈ handleOf c, s ∈ w.shared.handles then
        some (w.moved i (beginCall w.threads w.shared c))
      else
        none
  | .run i =>
      match w.threads[i]? with
      | some p =>
          if Enabled lockDiscipline w.threads p then
            some (w.moved i (next w.threads w.shared p, effect w.shared p))
          else
            none
      | none => none
  | .copyHandle s =>
      if s ∈ w.shared.handles then
        some { w with shared := { w.shared with handles := w.shared.handles ++ [s] } }
      else
        none

/-- No thread waits for a mutex of its own, and no two threads wait for each other. -/
def Deadlocked (w : LockSystem) : Prop :=
  Locks.Deadlocked lockDiscipline w.threads

/-- The condition on a thread that goes on. `close` does not take the mutex of a session that it is
about to close while `createEventQueue` waits for it, nor in the destructor within `openSession`;
`createEventQueue` does not take the mutex of the API while `close` waits for it on the active
session. -/
def PointGuarded (w : LockSystem) : LockPoint → Prop
  | .closeLock closer s => w.shared.closable s →
      closer ≠ .openSession ∧ .createSessionLock s ∉ w.threads
  | .createLock => ∀ s ∈ w.shared.active, ∀ closer, .sessionClosedLock closer s ∉ w.threads
  | _ => True

/-- The condition on a step. -/
def Guarded (w : LockSystem) : LockStep → Prop
  | .run i => ∀ p, w.threads[i]? = some p → Enabled lockDiscipline w.threads p → w.PointGuarded p
  | .call _ _ | .copyHandle _ => True

end LockSystem

/-! ### What a thread does -/

section

variable {threads : List LockPoint} {g : LockShared} {p q : LockPoint} {s : ℕ} {closer : Closer}

/-- Mutexes are taken and given back one at a time. -/
theorem moves_next (p : LockPoint) : Moves lockDiscipline p (next threads g p) := by
  intro m hm
  cases p with
  | closeLock closer s =>
      rw [next] at hm
      split at hm
      · simpa [held, wants, or_comm] using hm
      · simpa [held, wants, or_comm] using hm
  | closeUnlock closer s =>
      cases closer with
      | caller => simp [next, held] at hm
      | handle => simp [next, held] at hm
      | openSession => exact Or.inl (List.mem_cons_of_mem _ hm)
  | createLock =>
      rw [next] at hm
      split at hm
      · simpa [held, wants] using hm
      · simpa [held, wants] using hm
  | openLock ok => cases ok <;> simpa [next, held, wants] using hm
  | openPublish =>
      rw [next] at hm
      split at hm
      · split at hm
        · simpa [held, wants, Closer.held] using hm
        · simpa [held, wants] using hm
      · simpa [held, wants] using hm
  | openUnlock ok => cases ok <;> simp [next, held] at hm
  | registerLock s ok => cases ok <;> simpa [next, held, wants] using hm
  | sessionClosedUnlock | createSessionUnlock | createProducerUnlock | openProducerUnlock
  | registerProducerUnlock => exact Or.inl (List.mem_cons_of_mem _ hm)
  | sessionClosedLock | createSessionLock | createProducerLock | openProducerLock
  | registerProducerLock => simpa [next, held, wants, or_comm, or_left_comm] using hm
  | idle | createUnlock | getLock | getUnlock | registerUnlock => simp_all [next, held, wants]

/-- A call keeps its session until it gives back the handle. -/
theorem uses_next (p : LockPoint) :
    (next threads g p).uses = p.uses ∨ (next threads g p).uses = none := by
  cases p with
  | closeLock closer s =>
      rw [next]
      split
      · exact Or.inl rfl
      · exact Or.inl rfl
  | closeUnlock closer s => cases closer <;> exact Or.inr rfl
  | createLock =>
      rw [next]
      split <;> exact Or.inr rfl
  | openLock ok => cases ok <;> exact Or.inr rfl
  | openPublish =>
      rw [next]
      split
      · split <;> exact Or.inr rfl
      · exact Or.inr rfl
  | openUnlock ok => cases ok <;> exact Or.inr rfl
  | registerLock s ok => cases ok <;> exact Or.inl rfl
  | sessionClosedLock | sessionClosedUnlock | registerProducerLock | registerProducerUnlock =>
      exact Or.inl rfl
  | _ => exact Or.inr rfl

/-- What `openSession` destroys is the session that it has replaced. -/
theorem next_eq_closeLock (h : next threads g p = .closeLock closer s) :
    p = .openPublish ∧ closer = .openSession ∧ g.active = some s ∧ Unreferenced threads g s := by
  cases p with
  | closeLock closer' s' =>
      rw [next] at h
      split at h <;> cases h
  | closeUnlock closer' s' => cases closer' <;> cases h
  | createLock =>
      rw [next] at h
      split at h <;> cases h
  | openLock ok => cases ok <;> cases h
  | openPublish =>
      rw [next] at h
      split at h
      · rename_i s' hactive
        split at h
        · rename_i hunreferenced
          cases h
          exact ⟨rfl, rfl, hactive, hunreferenced⟩
        · cases h
      · cases h
  | openUnlock ok => cases ok <;> cases h
  | registerLock s' ok => cases ok <;> cases h
  | _ => cases h

/-- Only `openSession` opens sessions. -/
theorem active_effect (hp : p ≠ .openPublish) :
    (effect g p).active = g.active ∨ (effect g p).active = none := by
  cases p with
  | sessionClosedLock closer' s' =>
      rw [effect]
      dsimp only
      split
      · exact Or.inr rfl
      · exact Or.inl rfl
  | openPublish => exact absurd rfl hp
  | _ => exact Or.inl rfl

/-- No session is forgotten. -/
theorem length_effect (p : LockPoint) : g.sessions.length ≤ (effect g p).sessions.length := by
  cases p with
  | closeLock | sessionClosedUnlock | registerLock =>
      exact Nat.le_of_eq (List.length_modify _ _ _).symm
  | openPublish =>
      rw [effect, List.length_append]
      exact Nat.le_add_right _ _
  | _ => exact Nat.le_refl _

theorem mem_notifyEvent {o : Option ℕ} (h : s ∈ (g.notifyEvent o).handles) :
    s ∈ g.handles ∨ o = some s := by
  rw [LockShared.notifyEvent, List.mem_append, List.reduceOption_mem_iff] at h
  exact h.imp_right fun hmem => (List.eq_of_mem_replicate hmem).symm

/-- Where new handles come from. -/
theorem handles_effect (h : s ∈ (effect g p).handles) :
    s ∈ g.handles ∨ g.active = some s ∨ p.uses = some s ∨ p = .createSessionLock s := by
  cases p with
  | closeUnlock closer' s' =>
      rcases List.mem_append.mp h with hold | hnew
      · exact Or.inl hold
      · cases closer' with
        | caller =>
            rw [List.mem_singleton.mp hnew]
            exact Or.inr (Or.inr (Or.inl rfl))
        | handle => simp at hnew
        | openSession => simp at hnew
  | createSessionLock s' =>
      rcases List.mem_append.mp h with hold | hnew
      · exact Or.inl hold
      · rw [List.mem_singleton.mp hnew]
        exact Or.inr (Or.inr (Or.inr rfl))
  | getLock =>
      rcases List.mem_append.mp h with hold | hnew
      · exact Or.inl hold
      · exact Or.inr (Or.inl (Option.mem_toList.mp hnew))
  | openProducerLock => exact (mem_notifyEvent h).imp_right Or.inl
  | registerProducerLock s' => exact (mem_notifyEvent h).imp_right fun h => Or.inr (Or.inl h)
  | registerUnlock s' =>
      rcases List.mem_append.mp h with hold | hnew
      · exact Or.inl hold
      · rw [List.mem_singleton.mp hnew]
        exact Or.inr (Or.inr (Or.inl rfl))
  | _ => exact Or.inl h

/-! ### Who waits for whom -/

/-- A thread that holds nothing is not entangled. -/
theorem not_entangled_of_held (h : p.held = []) : ¬ Entangled lockDiscipline p q := by
  rintro ⟨-, m, -, hm⟩
  have hm : m ∈ p.held := hm
  simp [h] at hm

/-- Nor is one that waits for nothing, or for the producer: no thread waits while it holds this. -/
theorem not_entangled_of_wants (h : p.wants = none ∨ p.wants = some .producer) :
    ¬ Entangled lockDiscipline p q := by
  rintro ⟨⟨m, hm, hheld⟩, m', hm', -⟩
  have hm : p.wants = some m := hm
  have hheld : m ∈ q.held := hheld
  have hm' : q.wants = some m' := hm'
  rcases h with h | h
  · simp [h] at hm
  · obtain rfl : ApiMutex.producer = m := Option.some.inj (h.symm.trans hm)
    cases q with
    | closeLock closer s | closeUnlock closer s | sessionClosedLock closer s
    | sessionClosedUnlock closer s => cases closer <;> simp [held, Closer.held] at hheld
    | createProducerUnlock | openProducerUnlock | registerProducerUnlock => simp [wants] at hm'
    | _ => simp [held] at hheld

/-- **`createEventQueue` waits for a session** while `close` of this session waits for the API. -/
theorem entangled_createSessionLock :
    Entangled lockDiscipline (.createSessionLock s) q ↔
      ∃ closer, q = .sessionClosedLock closer s := by
  constructor
  · rintro ⟨⟨m, hm, hheld⟩, m', hm', hheld'⟩
    obtain rfl : ApiMutex.session s = m := Option.some.inj hm
    obtain rfl : m' = .api := List.mem_singleton.mp hheld'
    have hheld : ApiMutex.session s ∈ q.held := hheld
    have hm' : q.wants = some .api := hm'
    cases q with
    | sessionClosedLock closer s' =>
        refine ⟨closer, ?_⟩
        rcases List.mem_cons.mp hheld with hs | hs
        · rw [ApiMutex.session.inj hs]
        · cases closer <;> simp [Closer.held] at hs
    | createLock | getLock | openLock => simp [held] at hheld
    | _ => simp [wants] at hm'
  · rintro ⟨closer, rfl⟩
    exact ⟨⟨.session s, rfl, List.mem_cons_self⟩, .api, rfl, List.mem_singleton_self _⟩

/-- **`openSession` waits for the session that it destroys**: the same. -/
theorem entangled_closeLock_openSession :
    Entangled lockDiscipline (.closeLock .openSession s) q ↔
      ∃ closer, q = .sessionClosedLock closer s :=
  entangled_createSessionLock

/-- **`close` waits for the API**: on itself in `openSession`, else on `createEventQueue` or
`openSession` when these wait for the session. -/
theorem entangled_sessionClosedLock (hcloser : closer ≠ .openSession) :
    Entangled lockDiscipline (.sessionClosedLock closer s) q ↔
      q = .createSessionLock s ∨ q = .closeLock .openSession s := by
  have hheld : held (.sessionClosedLock closer s) = [.session s] := by
    cases closer with
    | caller => rfl
    | handle => rfl
    | openSession => exact absurd rfl hcloser
  constructor
  · rintro ⟨⟨m, hm, hapi⟩, m', hm', hsession⟩
    obtain rfl : ApiMutex.api = m := Option.some.inj hm
    have hapi : ApiMutex.api ∈ q.held := hapi
    have hm' : q.wants = some m' := hm'
    have hsession : m' ∈ held (.sessionClosedLock closer s) := hsession
    rw [hheld, List.mem_singleton] at hsession
    subst hsession
    cases q with
    | closeLock closer' s' =>
        obtain rfl : s' = s := ApiMutex.session.inj (Option.some.inj hm')
        cases closer' with
        | openSession => exact Or.inr rfl
        | caller => simp [held, Closer.held] at hapi
        | handle => simp [held, Closer.held] at hapi
    | createSessionLock s' =>
        obtain rfl : s' = s := ApiMutex.session.inj (Option.some.inj hm')
        exact Or.inl rfl
    | registerLock s' ok => simp [held] at hapi
    | _ => simp [wants] at hm'
  · rintro (rfl | rfl)
    · exact ⟨⟨.api, rfl, List.mem_singleton_self _⟩, .session s, rfl, List.mem_cons_self⟩
    · exact ⟨⟨.api, rfl, List.mem_singleton_self _⟩, .session s, rfl, List.mem_cons_self⟩

/-- `close` in `openSession` waits for itself. -/
theorem entangled_self :
    Entangled lockDiscipline (.sessionClosedLock .openSession s) (.sessionClosedLock .openSession s) := by
  have hapi : ApiMutex.api ∈ held (.sessionClosedLock .openSession s) :=
    List.mem_cons_of_mem _ (List.mem_singleton_self _)
  exact ⟨⟨.api, rfl, hapi⟩, .api, rfl, hapi⟩

end

/-! ### Runs -/

namespace LockSystem

variable {w w' : LockSystem} {i s : ℕ} {p q : LockPoint}

/-- **The invariant.** No mutex is held twice, the active session is one of the sessions, and nobody
has a reference to a session that `openSession` destroys. -/
structure Invariant (w : LockSystem) : Prop where
  exclusive : Exclusive lockDiscipline w.threads
  known : ∀ s, w.shared.active = some s → s < w.shared.sessions.length
  dying : ∀ s, .closeLock .openSession s ∈ w.threads → s < w.shared.sessions.length ∧
    w.shared.active ≠ some s ∧ Unreferenced w.threads w.shared s

theorem invariant_initial (n : ℕ) : Invariant { threads := List.replicate n .idle } where
  exclusive := by
    intro i j p q m hi _ hp _
    obtain rfl := List.eq_of_mem_replicate (List.mem_of_getElem? hi)
    exact absurd hp List.not_mem_nil
  known := by simp
  dying := by simp

theorem Invariant.copyHandle (hw : Invariant w) (hs : s ∈ w.shared.handles) :
    Invariant { w with shared := { w.shared with handles := w.shared.handles ++ [s] } } where
  exclusive := hw.exclusive
  known := hw.known
  dying := by
    intro r hr
    obtain ⟨hlt, hactive, hhandles, huses⟩ := hw.dying r hr
    refine ⟨hlt, hactive, fun hmem => ?_, huses⟩
    rcases List.mem_append.mp hmem with hold | hnew
    · exact hhandles hold
    · rw [List.mem_singleton.mp hnew] at hhandles
      exact hhandles hs

/-- **The invariant of a thread that moves**, if it brings no reference to a session that is being
destroyed. -/
theorem Invariant.moved (hw : Invariant w) {g : LockShared} {p' : LockPoint}
    (hp : w.threads[i]? = some p) (henabled : Enabled lockDiscipline w.threads p)
    (hmoves : Moves lockDiscipline p p')
    (hknown : ∀ s, g.active = some s → s < g.sessions.length)
    (hlength : w.shared.sessions.length ≤ g.sessions.length)
    (hactive : ∀ s, .closeLock .openSession s ∈ w.threads → g.active ≠ some s)
    (hhandles : ∀ s, .closeLock .openSession s ∈ w.threads → s ∉ g.handles)
    (huses : ∀ s, .closeLock .openSession s ∈ w.threads → p'.uses ≠ some s)
    (hnew : ∀ s, p' = .closeLock .openSession s → s < g.sessions.length ∧ g.active ≠ some s ∧
      Unreferenced (w.threads.set i p') g s) : Invariant (w.moved i (p', g)) where
  exclusive := hw.exclusive.set hp henabled hmoves
  known := hknown
  dying := by
    intro s hs
    rcases List.mem_or_eq_of_mem_set hs with hold | heq
    · obtain ⟨hlt, -, -, hunused⟩ := hw.dying s hold
      refine ⟨Nat.lt_of_lt_of_le hlt hlength, hactive s hold, hhandles s hold, fun q hq => ?_⟩
      rcases List.mem_or_eq_of_mem_set hq with hq | rfl
      · exact hunused q hq
      · exact huses s hold
    · exact hnew s heq.symm

/-- What the begin of a call does: it takes no mutex, and uses at most the handle that it is given. -/
structure Begins (g : LockShared) (c : LockCall) (r : LockPoint × LockShared) : Prop where
  held : r.1.held = []
  closer : ∀ s, r.1 ≠ .closeLock .openSession s
  uses : ∀ s, r.1.uses = some s → s ∈ handleOf c
  active : r.2.active = g.active
  sessions : r.2.sessions = g.sessions
  handles : ∀ s ∈ r.2.handles, s ∈ g.handles

theorem begins (threads : List LockPoint) (g : LockShared) (c : LockCall) :
    Begins g c (beginCall threads g c) := by
  cases c with
  | close s => exact ⟨rfl, by simp [beginCall], by simp [beginCall, LockPoint.uses, handleOf], rfl, rfl,
      fun _ h => List.mem_of_mem_erase h⟩
  | registerToControl s ok => exact ⟨rfl, by simp [beginCall],
      by simp [beginCall, LockPoint.uses, handleOf], rfl, rfl, fun _ h => List.mem_of_mem_erase h⟩
  | dropHandle s =>
      rw [beginCall]
      split
      · exact ⟨rfl, by simp, by simp [LockPoint.uses, handleOf], rfl, rfl,
          fun _ h => List.mem_of_mem_erase h⟩
      · exact ⟨rfl, by simp, by simp [LockPoint.uses], rfl, rfl, fun _ h => List.mem_of_mem_erase h⟩
  | createEventQueue | getOpenSession | openSession =>
      exact ⟨rfl, by simp [beginCall], by simp [beginCall, LockPoint.uses], rfl, rfl, fun _ h => h⟩

/-- The begin of a call. -/
theorem Invariant.call {c : LockCall} (hw : Invariant w) (hidle : w.threads[i]? = some .idle)
    (hhandle : ∀ s ∈ handleOf c, s ∈ w.shared.handles) :
    Invariant (w.moved i (beginCall w.threads w.shared c)) := by
  have hbegins := begins w.threads w.shared c
  generalize beginCall w.threads w.shared c = r at hbegins
  obtain ⟨p', g⟩ := r
  refine hw.moved hidle (by simp [Enabled, wants]) ?_ ?_ ?_ ?_ ?_ ?_ ?_
  · intro m hm
    have hm : m ∈ p'.held := hm
    rw [hbegins.held] at hm
    simp at hm
  · intro s hs
    rw [hbegins.active] at hs
    rw [hbegins.sessions]
    exact hw.known s hs
  · exact Nat.le_of_eq (congrArg List.length hbegins.sessions.symm)
  · intro s hs
    rw [hbegins.active]
    exact (hw.dying s hs).2.1
  · intro s hs hmem
    exact (hw.dying s hs).2.2.1 (hbegins.handles s hmem)
  · intro s hs huses
    exact (hw.dying s hs).2.2.1 (hhandle s (hbegins.uses s huses))
  · intro s hs
    exact absurd hs (hbegins.closer s)

/-- While `openSession` destroys a session, no other thread holds the mutex of the API. -/
theorem Invariant.not_held_api (hw : Invariant w) (hs : .closeLock .openSession s ∈ w.threads)
    (hp : p ∈ w.threads) (hne : p ≠ .closeLock .openSession s) : ApiMutex.api ∉ p.held := by
  intro hheld
  exact hne (hw.exclusive.eq_of_mem hp hs hheld (List.mem_singleton_self _))

/-- A thread that goes on. -/
theorem Invariant.run (hw : Invariant w) (hp : w.threads[i]? = some p)
    (henabled : Enabled lockDiscipline w.threads p) :
    Invariant (w.moved i (next w.threads w.shared p, effect w.shared p)) := by
  have hmem : p ∈ w.threads := List.mem_of_getElem? hp
  refine hw.moved hp henabled (moves_next p) ?_ (length_effect p) ?_ ?_ ?_ ?_
  · intro s hs
    by_cases hpublish : p = .openPublish
    · subst hpublish
      obtain rfl : w.shared.sessions.length = s := Option.some.inj hs
      simp [effect]
    · rcases active_effect (g := w.shared) hpublish with hsame | hnone
      · rw [hsame] at hs
        exact Nat.lt_of_lt_of_le (hw.known s hs) (length_effect p)
      · simp [hnone] at hs
  · intro s hs
    by_cases hpublish : p = .openPublish
    · subst hpublish
      exact absurd (List.mem_singleton_self _) (hw.not_held_api hs hmem (by simp))
    · rcases active_effect (g := w.shared) hpublish with hsame | hnone
      · rw [hsame]
        exact (hw.dying s hs).2.1
      · simp [hnone]
  · intro s hs hhandles
    obtain ⟨-, hactive, hunreferenced, huses⟩ := hw.dying s hs
    rcases handles_effect hhandles with h | h | h | h
    · exact hunreferenced h
    · exact hactive h
    · exact huses p hmem h
    · subst h
      exact hw.not_held_api hs hmem (by simp) (List.mem_singleton_self _)
  · intro s hs
    have hnext : (next w.threads w.shared p).uses = p.uses ∨
        (next w.threads w.shared p).uses = none := uses_next p
    rcases hnext with h | h
    · rw [h]
      exact (hw.dying s hs).2.2.2 p hmem
    · simp [h]
  · intro s hs
    obtain ⟨rfl, -, hactive, hhandles, huses⟩ := next_eq_closeLock hs
    have hlt := hw.known s hactive
    refine ⟨Nat.lt_of_lt_of_le hlt (length_effect _), ?_, hhandles, fun q hq => ?_⟩
    · intro h
      have hlength : w.shared.sessions.length = s := Option.some.inj h
      omega
    · rcases List.mem_or_eq_of_mem_set hq with hq | rfl
      · exact huses q hq
      · rw [hs]
        simp [LockPoint.uses]

theorem step_invariant {l : LockStep} (hw : Invariant w) (h : w.step l = some w') :
    Invariant w' := by
  cases l with
  | call i c =>
      rw [step, Option.ite_none_right_eq_some, Option.some.injEq] at h
      obtain ⟨⟨hidle, hhandle⟩, rfl⟩ := h
      exact hw.call hidle hhandle
  | run i =>
      rw [step] at h
      split at h
      · rename_i p hp
        rw [Option.ite_none_right_eq_some, Option.some.injEq] at h
        obtain ⟨henabled, rfl⟩ := h
        exact hw.run hp henabled
      · simp at h
  | copyHandle s =>
      rw [step, Option.ite_none_right_eq_some, Option.some.injEq] at h
      obtain ⟨hs, rfl⟩ := h
      exact hw.copyHandle hs

/-- A thread that has nothing to do with sessions at two ends waits for no one. -/
theorem not_entangled_next (hclose : ∀ closer s, p ≠ .closeLock closer s) (hcreate : p ≠ .createLock)
    (hpublish : p ≠ .openPublish) :
    ¬ Entangled lockDiscipline (next w.threads w.shared p) q := by
  cases p with
  | closeLock closer s => exact absurd rfl (hclose closer s)
  | createLock => exact absurd rfl hcreate
  | openPublish => exact absurd rfl hpublish
  | closeUnlock closer s =>
      cases closer with
      | caller => exact not_entangled_of_held rfl
      | handle => exact not_entangled_of_held rfl
      | openSession => exact not_entangled_of_wants (Or.inr rfl)
  | openLock ok => cases ok <;> exact not_entangled_of_wants (Or.inl rfl)
  | openUnlock ok => cases ok <;> exact not_entangled_of_held rfl
  | registerLock s ok =>
      cases ok with
      | true => exact not_entangled_of_wants (Or.inr rfl)
      | false => exact not_entangled_of_wants (Or.inl rfl)
  | createSessionUnlock => exact not_entangled_of_wants (Or.inr rfl)
  | _ => exact not_entangled_of_wants (Or.inl rfl)

/-- **`close` that goes on** waits for itself or for `createEventQueue`, if for anyone. -/
theorem entangled_next_closeLock {closer : Closer} (hw : Invariant w)
    (hp : w.threads[i]? = some (.closeLock closer s)) :
    (∃ q ∈ w.threads.set i (next w.threads w.shared (.closeLock closer s)),
      Entangled lockDiscipline (next w.threads w.shared (.closeLock closer s)) q) ↔
      ¬ w.PointGuarded (.closeLock closer s) := by
  have hmem : .closeLock closer s ∈ w.threads := List.mem_of_getElem? hp
  have hlt : i < w.threads.length := (List.getElem?_eq_some_iff.mp hp).1
  rw [PointGuarded, next]
  by_cases hclosable : w.shared.closable s = true
  · rw [if_pos hclosable, imp_iff_right hclosable, not_and_or, not_not, not_not]
    by_cases hopen : closer = .openSession
    · subst hopen
      exact iff_of_true ⟨_, List.mem_set hlt _, entangled_self⟩ (Or.inl rfl)
    · rw [or_iff_right hopen]
      constructor
      · rintro ⟨q, hq, h⟩
        rcases List.mem_or_eq_of_mem_set hq with hq | rfl
        · rcases (entangled_sessionClosedLock hopen).mp h with rfl | rfl
          · exact hq
          · refine absurd ?_ ((hw.dying s hq).2.2.2 _ hmem)
            rw [LockPoint.uses, if_neg hopen]
        · rcases (entangled_sessionClosedLock hopen).mp h with heq | heq
          · cases heq
          · cases heq
      · intro hcreate
        exact ⟨_, mem_set_of_ne hp hcreate (by simp),
          (entangled_sessionClosedLock hopen).mpr (Or.inl rfl)⟩
  · rw [if_neg hclosable]
    refine iff_of_false ?_ (by simp [hclosable])
    rintro ⟨q, -, h⟩
    exact not_entangled_of_wants (Or.inl rfl) h

/-- **`createEventQueue` that goes on** waits for `close` of the active session, if for anyone. -/
theorem entangled_next_createLock (hp : w.threads[i]? = some .createLock) :
    (∃ q ∈ w.threads.set i (next w.threads w.shared .createLock),
      Entangled lockDiscipline (next w.threads w.shared .createLock) q) ↔
      ¬ w.PointGuarded .createLock := by
  rw [PointGuarded, next]
  cases hactive : w.shared.active with
  | none =>
      refine iff_of_false ?_ (by simp)
      rintro ⟨q, -, h⟩
      exact not_entangled_of_wants (Or.inr rfl) h
  | some s =>
      simp only [Option.mem_some_iff, forall_eq', not_forall, not_not]
      constructor
      · rintro ⟨q, hq, h⟩
        obtain ⟨closer, rfl⟩ := entangled_createSessionLock.mp h
        rcases List.mem_or_eq_of_mem_set hq with hq | heq
        · exact ⟨closer, hq⟩
        · cases heq
      · rintro ⟨closer, hclosed⟩
        exact ⟨_, mem_set_of_ne hp hclosed (by simp), entangled_createSessionLock.mpr ⟨closer, rfl⟩⟩

/-- `openSession` that publishes its session waits for no one: nobody has a reference to the session
that it destroys. -/
theorem not_entangled_next_openPublish (hw : Invariant w) (hp : w.threads[i]? = some .openPublish)
    (hq : q ∈ w.threads.set i (next w.threads w.shared .openPublish)) :
    ¬ Entangled lockDiscipline (next w.threads w.shared .openPublish) q := by
  have hmem : .openPublish ∈ w.threads := List.mem_of_getElem? hp
  rw [next] at hq ⊢
  split at hq
  · rename_i s hactive
    split at hq
    · rename_i hunreferenced
      rw [if_pos hunreferenced]
      intro h
      obtain ⟨closer, rfl⟩ := entangled_closeLock_openSession.mp h
      rcases List.mem_or_eq_of_mem_set hq with hq | heq
      · by_cases hopen : closer = .openSession
        · subst hopen
          have heq := hw.exclusive.eq_of_mem hmem hq (List.mem_singleton_self _)
            (List.mem_cons_of_mem _ (List.mem_singleton_self ApiMutex.api))
          cases heq
        · refine hunreferenced.2 _ hq ?_
          rw [LockPoint.uses, if_neg hopen]
      · cases heq
    · rename_i hreferenced
      rw [if_neg hreferenced]
      exact not_entangled_of_wants (Or.inr rfl)
  · exact not_entangled_of_wants (Or.inr rfl)

/-- **The thread that goes on ends in a deadlock** exactly when it does not meet the condition. -/
theorem entangled_next_iff (hw : Invariant w) (hp : w.threads[i]? = some p) :
    (∃ q ∈ w.threads.set i (next w.threads w.shared p),
      Entangled lockDiscipline (next w.threads w.shared p) q) ↔ ¬ w.PointGuarded p := by
  cases p with
  | closeLock closer s => exact entangled_next_closeLock hw hp
  | createLock => exact entangled_next_createLock hp
  | openPublish =>
      refine iff_of_false ?_ (not_not.mpr trivial)
      rintro ⟨q, hq, h⟩
      exact not_entangled_next_openPublish hw hp hq h
  | _ =>
      refine iff_of_false ?_ (not_not.mpr trivial)
      rintro ⟨q, -, h⟩
      exact not_entangled_next (by simp) (by simp) (by simp) h

/-- **Which steps end in a deadlock**: exactly those that do not meet the condition. -/
theorem step_deadlocked_iff {l : LockStep} (hw : Invariant w) (h : w.step l = some w') :
    ¬ w'.Deadlocked ↔ ¬ w.Deadlocked ∧ w.Guarded l := by
  cases l with
  | call i c =>
      rw [step, Option.ite_none_right_eq_some, Option.some.injEq] at h
      obtain ⟨⟨hidle, -⟩, rfl⟩ := h
      have hheld := (begins w.threads w.shared c).held
      rw [Guarded, and_true, Deadlocked, LockSystem.moved,
        deadlocked_set_iff hidle (by simp [Enabled, wants]), not_or]
      refine and_iff_left ?_
      rintro ⟨q, -, hq⟩
      exact not_entangled_of_held hheld hq
  | run i =>
      rw [step] at h
      split at h
      · rename_i p hp
        rw [Option.ite_none_right_eq_some, Option.some.injEq] at h
        obtain ⟨henabled, rfl⟩ := h
        have hguarded : w.Guarded (.run i) ↔ w.PointGuarded p := by
          simp [Guarded, hp, henabled]
        rw [hguarded, Deadlocked, LockSystem.moved, deadlocked_set_iff hp henabled, not_or,
          entangled_next_iff hw hp, not_not]
        exact Iff.rfl
      · simp at h
  | copyHandle s =>
      rw [step, Option.ite_none_right_eq_some, Option.some.injEq] at h
      obtain ⟨-, rfl⟩ := h
      exact (and_iff_left trivial).symm

/-- **Which runs get into a deadlock**, for any number of threads. -/
theorem deadlocked_iff {n : ℕ} {ls : List LockStep}
    (h : exec step { threads := List.replicate n .idle } ls = some w) :
    ¬ w.Deadlocked ↔ Meets step Guarded { threads := List.replicate n .idle } ls := by
  have hinitial : ¬ Deadlocked { threads := List.replicate n .idle } := by
    rintro ⟨p, hp, q, -, hpq⟩
    rw [List.eq_of_mem_replicate hp] at hpq
    exact not_entangled_of_held rfl hpq
  rw [meets_iff_of_invariant (P := fun w => ¬ w.Deadlocked) step_invariant step_deadlocked_iff
    (invariant_initial n) h]
  exact and_iff_right hinitial

/-- A session is opened, and closed while a queue is created after it. -/
theorem deadlocked_iff_created :
    ∃ w, exec step { threads := List.replicate 2 .idle } ([.call 0 (.openSession true)] ++
      List.replicate 7 (.run 0) ++ [.call 0 (.close 0), .call 1 .createEventQueue, .run 0, .run 0,
        .run 0, .run 0, .run 1]) = some w ∧
      (¬ w.Deadlocked ↔ Meets step Guarded { threads := List.replicate 2 .idle }
        ([.call 0 (.openSession true)] ++ List.replicate 7 (.run 0) ++ [.call 0 (.close 0),
          .call 1 .createEventQueue, .run 0, .run 0, .run 0, .run 0, .run 1])) :=
  ⟨_, rfl, deadlocked_iff rfl⟩

/-- `close` takes the mutex of the session while `createEventQueue`, which holds the one of the API,
is about to. -/
theorem not_not_deadlocked : ¬ ∀ (n : ℕ) (ls : List LockStep) (w : LockSystem),
    exec step { threads := List.replicate n .idle } ls = some w → ¬ w.Deadlocked := by
  intro h
  refine h 2 ([.call 0 (.openSession true)] ++ List.replicate 7 (.run 0) ++ [.call 0 (.close 0),
    .call 1 .createEventQueue, .run 1, .run 0]) _ rfl ?_
  exact ⟨.sessionClosedLock .caller 0, by decide, .createSessionLock 0, by decide,
    (entangled_sessionClosedLock (by decide)).mpr (Or.inl rfl)⟩

end LockSystem

end ScApi
