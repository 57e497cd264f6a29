import Mathlib.Data.List.Induction
import ScApi.Lib.Runs
import ScApi.Session

/-!
# Losing a session

The backend counts up a keep-alive counter in the shared memory. The periodic update of a session
remembers the value that it has read last and when it read it for the first time, and declares the
session lost when that is longer ago than the timeout.

Both are remembered from the construction on, before anything was read: as a counter of zero at the
epoch of the clock. A backend whose counter is zero at the first read is lost at once.

## Main results

* `Remembers.read`: what is remembered, over one read.
* `remembers_of_exec`: the same over a run.
* `declaresLost_iff_stale_iff`: when a session is declared lost just when the counter has stood still.
-/

namespace ScApi

open Runs

/-- `k_keep_alive_timeout`, in nanoseconds as the clock counts them. -/
def kKeepAliveTimeout : ℕ := 1000000000

/-- The fields `prev_keep_alive_` and `prev_keep_alive_value_` of a session. Times count from the epoch
of the steady clock, which is also what a time point is constructed as. -/
structure KeepAlive where
  prevKeepAlive : ℕ := 0
  prevKeepAliveValue : UInt32 := 0
  deriving DecidableEq, Repr

namespace KeepAlive

/-- The counter is read; `now` is the time when it has changed. -/
def read (counter : UInt32) (now : ℕ) (k : KeepAlive) : KeepAlive :=
  if counter ≠ k.prevKeepAliveValue then ⟨now, counter⟩ else k

/-- The comparison with the timeout. -/
def expired (now : ℕ) (k : KeepAlive) : Bool :=
  k.prevKeepAlive + kKeepAliveTimeout < now

end KeepAlive

/-- A session and what it remembers of the counter. -/
structure MonitoredSession where
  session : Session
  keepAlive : KeepAlive := {}
  deriving DecidableEq, Repr

/-- One read of the counter, by a periodic update at some time. -/
structure Reading where
  time : ℕ
  counter : UInt32
  deriving DecidableEq, Repr

namespace MonitoredSession

/-- A session as it is constructed. -/
def opened (sessionId : UInt32) : MonitoredSession :=
  { session := { sessionId } }

/-- `Session::periodicUpdate`, up to the end of its section under the mutex: it reads the clock when the
counter has changed, and again for the comparison. -/
def periodicUpdate (counter : UInt32) (changed now : ℕ) (m : MonitoredSession) :
    Session.PeriodicUpdate × MonitoredSession :=
  let keepAlive := m.keepAlive.read counter changed
  (m.session.periodicUpdate (keepAlive.expired now), { m with keepAlive })

/-- The periodic update at the time of a reading declares the session lost. -/
def DeclaresLost (m : MonitoredSession) (r : Reading) : Prop :=
  (m.periodicUpdate r.counter r.time r.time).1 = .disconnect

instance (m : MonitoredSession) (r : Reading) : Decidable (m.DeclaresLost r) :=
  inferInstanceAs (Decidable (_ = _))

/-- A periodic update of a session that is monitored, with `disconnected` when it is lost. -/
def step (m : MonitoredSession) (r : Reading) : Option MonitoredSession :=
  if m.session.state = .connectedMonitor then
    match m.periodicUpdate r.counter r.time r.time with
    | (.disconnect, m) => some { m with session := m.session.disconnected }
    | (.goOn, m) | (.stop, m) => some m
  else
    none

end MonitoredSession

open MonitoredSession

/-- **The counter has stood still**: since a reading that is longer ago than the timeout, every reading
was the one of now. -/
def Stale (readings : List Reading) (r : Reading) : Prop :=
  ∃ front x back, readings = front ++ x :: back ∧ (∀ y ∈ x :: back, y.counter = r.counter) ∧
    x.time + kKeepAliveTimeout < r.time

/-- What is remembered after some readings: nothing, when all of them were zero, or the first of those
that were the same as the last one. -/
inductive Remembers : List Reading → KeepAlive → Prop
  | never {readings : List Reading} (h : ∀ r ∈ readings, r.counter = 0) : Remembers readings {}
  | since {front back : List Reading} {x : Reading} (hback : ∀ y ∈ back, y.counter = x.counter)
      (hfront : (front.getLast?.elim 0 Reading.counter) ≠ x.counter) :
      Remembers (front ++ x :: back) ⟨x.time, x.counter⟩

section

variable {readings : List Reading} {k : KeepAlive} {r : Reading} {m : MonitoredSession}

/-- **One read.** -/
theorem Remembers.read (h : Remembers readings k) (r : Reading) :
    Remembers (readings ++ [r]) (k.read r.counter r.time) := by
  rw [KeepAlive.read]
  cases h with
  | never hzero =>
      split_ifs with hchanged
      · refine .since (by simp) ?_
        cases hlast : readings.getLast? with
        | none => exact hchanged.symm
        | some y =>
            have hy := hzero y (List.mem_of_getLast? hlast)
            exact fun heq => hchanged (heq.symm.trans hy)
      · refine .never fun y hy => ?_
        rcases List.mem_append.mp hy with hy | hy
        · exact hzero y hy
        · rw [List.mem_singleton.mp hy]
          exact not_not.mp hchanged
  | @since front back x hback hfront =>
      split_ifs with hchanged
      · refine .since (by simp) ?_
        have hlast : (front ++ x :: back).getLast?.elim 0 Reading.counter = x.counter := by
          rw [List.getLast?_append_of_ne_nil _ (List.cons_ne_nil _ _)]
          cases hlast : (x :: back).getLast? with
          | none => simp at hlast
          | some y =>
              rcases List.mem_cons.mp (List.mem_of_getLast? hlast) with rfl | hy
              · rfl
              · exact hback y hy
        rw [hlast]
        exact fun heq => hchanged heq.symm
      · rw [List.append_assoc, List.cons_append]
        refine .since (fun y hy => ?_) hfront
        rcases List.mem_append.mp hy with hy | hy
        · exact hback y hy
        · rw [List.mem_singleton.mp hy]
          exact not_not.mp hchanged

/-- **A run.** -/
theorem remembers_of_exec {sessionId : UInt32}
    (hrun : exec step (opened sessionId) readings = some m) : Remembers readings m.keepAlive := by
  induction readings using List.reverseRecOn generalizing m with
  | nil =>
      obtain rfl := Option.some.inj hrun
      exact .never (by simp)
  | append_singleton readings r ih =>
      obtain ⟨m', hrun, hstep⟩ := exec_append.mp hrun
      have hread := (ih hrun).read r
      rw [exec_singleton, step] at hstep
      split_ifs at hstep
      split at hstep <;> obtain rfl := Option.some.inj hstep <;> rename_i heq <;>
        obtain ⟨-, rfl⟩ := Prod.mk.inj heq <;> exact hread

theorem declaresLost_iff (hstate : m.session.state = .connectedMonitor) :
    m.DeclaresLost r ↔
      (m.keepAlive.read r.counter r.time).prevKeepAlive + kKeepAliveTimeout < r.time := by
  rw [DeclaresLost, MonitoredSession.periodicUpdate]
  dsimp only
  rw [Session.periodicUpdate, hstate]
  dsimp only
  rw [KeepAlive.expired]
  split_ifs with hexpired
  · exact iff_of_true rfl (of_decide_eq_true hexpired)
  · exact iff_of_false (by decide) fun h => hexpired (decide_eq_true h)

/-- A counter that has just changed has not stood still. -/
theorem not_stale_of_changed {front back : List Reading} {x : Reading}
    (hback : ∀ y ∈ back, y.counter = x.counter) (hchanged : r.counter ≠ x.counter) :
    ¬ Stale (front ++ x :: back) r := by
  rintro ⟨front', y, back', hsplit, hsame, -⟩
  have hlast := congrArg List.getLast? hsplit
  rw [List.getLast?_append_of_ne_nil _ (List.cons_ne_nil _ _),
    List.getLast?_append_of_ne_nil _ (List.cons_ne_nil _ _),
    List.getLast?_eq_some_getLast (List.cons_ne_nil x back),
    List.getLast?_eq_some_getLast (List.cons_ne_nil y back'), Option.some.injEq] at hlast
  have hnow := hsame _ (List.getLast_mem (List.cons_ne_nil y back'))
  rw [← hlast] at hnow
  rcases List.mem_cons.mp (List.getLast_mem (List.cons_ne_nil x back)) with heq | hmem
  · exact hchanged (by rw [← hnow, heq])
  · exact hchanged (hnow.symm.trans (hback _ hmem))

/-- **A counter that was read before** has stood still since the first reading that was the same. -/
theorem stale_iff_of_same {front back : List Reading} {x : Reading}
    (hback : ∀ y ∈ back, y.counter = x.counter)
    (hfront : (front.getLast?.elim 0 Reading.counter) ≠ x.counter) (hsame : r.counter = x.counter)
    (htimes : (front ++ x :: back).Pairwise fun y z => y.time ≤ z.time) :
    Stale (front ++ x :: back) r ↔ x.time + kKeepAliveTimeout < r.time := by
  constructor
  · rintro ⟨front', y, back', hsplit, hsame', hlate⟩
    suffices hle : x.time ≤ y.time by omega
    rcases List.append_eq_append_iff.mp hsplit with ⟨mid, hfront', hmid⟩ | ⟨mid, hfront', hmid⟩
    · -- the reading is the first one, or behind it
      have hy : y ∈ x :: back := by
        rw [hmid]
        simp
      rcases List.mem_cons.mp hy with rfl | hy
      · exact le_rfl
      · exact (List.pairwise_cons.mp (List.pairwise_append.mp htimes).2.1).1 y hy
    · cases hrev : mid.getLast? with
      | none =>
          rw [List.getLast?_eq_none_iff] at hrev
          rw [hrev, List.nil_append] at hmid
          rw [(List.cons.inj hmid).1]
      | some z =>
          -- a reading in front of the first one was a different one
          have hz : z ∈ y :: back' := by
            rw [hmid]
            exact List.mem_append_left _ (List.mem_of_getLast? hrev)
          have hne : mid ≠ [] := by
            rintro rfl
            cases hrev
          rw [hfront', List.getLast?_append_of_ne_nil _ hne, hrev] at hfront
          exact absurd ((hsame' z hz).trans hsame) hfront
  · intro hlate
    refine ⟨front, x, back, rfl, fun y hy => ?_, hlate⟩
    rcases List.mem_cons.mp hy with rfl | hy
    · exact hsame.symm
    · exact (hback y hy).trans hsame.symm

/-- Readings that were all the same have stood still since the first one. -/
theorem stale_iff_of_zero (hzero : ∀ x ∈ readings, x.counter = 0) (hr : r.counter = 0)
    (htimes : readings.Pairwise fun y z => y.time ≤ z.time) :
    Stale readings r ↔ ∃ x ∈ readings.head?, x.time + kKeepAliveTimeout < r.time := by
  cases readings with
  | nil => exact iff_of_false (by rintro ⟨front, x, back, hsplit, -⟩; simp at hsplit) (by simp)
  | cons first rest =>
      have hhead : (∃ x ∈ (first :: rest).head?, x.time + kKeepAliveTimeout < r.time) ↔
          first.time + kKeepAliveTimeout < r.time := by
        simp
      rw [hhead]
      constructor
      · rintro ⟨front, x, back, hsplit, -, hlate⟩
        have hx : x ∈ first :: rest := by
          rw [hsplit]
          simp
        rcases List.mem_cons.mp hx with rfl | hx
        · exact hlate
        · have := (List.pairwise_cons.mp htimes).1 x hx
          omega
      · exact fun hlate => ⟨[], first, rest, rfl, fun y hy => (hzero y hy).trans hr.symm, hlate⟩

/-- **When a session is declared lost just when the counter has stood still**: when some reading was
not zero, or the clock makes no difference between its epoch and the first reading. -/
theorem declaresLost_iff_stale_iff {sessionId : UInt32}
    (hrun : exec step (opened sessionId) readings = some m)
    (hstate : m.session.state = .connectedMonitor)
    (htimes : (readings ++ [r]).Pairwise fun x y => x.time ≤ y.time) :
    (m.DeclaresLost r ↔ Stale readings r) ↔
      (∃ x ∈ readings ++ [r], x.counter ≠ 0) ∨ r.time ≤ kKeepAliveTimeout ∨
        ∃ x ∈ readings.head?, x.time + kKeepAliveTimeout < r.time := by
  have htimes' := (List.pairwise_append.mp htimes).1
  have hremembers := remembers_of_exec hrun
  rw [declaresLost_iff hstate]
  obtain ⟨k, hk⟩ : ∃ k, k = m.keepAlive := ⟨_, rfl⟩
  rw [← hk] at hremembers ⊢
  cases hremembers with
  | never hzero =>
      by_cases hr : r.counter = 0
      · -- the counter is taken for one that was read at the epoch
        have hread : KeepAlive.read r.counter r.time {} = {} := if_neg (not_not_intro hr)
        have hnone : ¬ ∃ x ∈ readings ++ [r], x.counter ≠ 0 := by
          rintro ⟨x, hx, hne⟩
          rcases List.mem_append.mp hx with hx | hx
          · exact hne (hzero x hx)
          · rw [List.mem_singleton.mp hx] at hne
            exact hne hr
        rw [hread, stale_iff_of_zero hzero hr htimes', or_iff_right hnone]
        dsimp only
        rw [Nat.zero_add]
        constructor
        · intro hiff
          by_cases hlate : r.time ≤ kKeepAliveTimeout
          · exact .inl hlate
          · exact .inr (hiff.mp (by omega))
        · rintro (hearly | ⟨x, hx, hlate⟩)
          · refine iff_of_false (by omega) ?_
            rintro ⟨x, hx, hlate⟩
            omega
          · exact iff_of_true (by omega) ⟨x, hx, hlate⟩
      · have hread : KeepAlive.read r.counter r.time {} = ⟨r.time, r.counter⟩ := if_pos hr
        have hstale : ¬ Stale readings r := by
          rintro ⟨front, x, back, rfl, hsame, -⟩
          exact hr ((hsame x List.mem_cons_self).symm.trans (hzero x (by simp)))
        rw [hread]
        exact iff_of_true (iff_of_false (by dsimp only; omega) hstale) (.inl ⟨r, by simp, hr⟩)
  | @since front back x hback hfront =>
      -- a reading was not zero: the one that is remembered, or the one in front of it
      have hsome : ∃ y ∈ front ++ x :: back ++ [r], y.counter ≠ 0 := by
        by_cases hx : x.counter = 0
        · cases hlast : front.getLast? with
          | none => exact absurd (by rw [hlast, hx]; rfl) hfront
          | some y =>
              rw [hlast, hx] at hfront
              have hy := List.mem_of_getLast? hlast
              exact ⟨y, by simp [hy], hfront⟩
        · exact ⟨x, by simp, hx⟩
      refine iff_of_true ?_ (.inl hsome)
      by_cases hsame : r.counter = x.counter
      · have hread : KeepAlive.read r.counter r.time ⟨x.time, x.counter⟩ = ⟨x.time, x.counter⟩ :=
          if_neg (not_not_intro hsame)
        rw [hread, stale_iff_of_same hback hfront hsame htimes']
      · have hread : KeepAlive.read r.counter r.time ⟨x.time, x.counter⟩ = ⟨r.time, r.counter⟩ :=
          if_pos hsame
        rw [hread]
        exact iff_of_false (by dsimp only; omega) (not_stale_of_changed hback hsame)

end

/-- A counter that has stood still at seven for two seconds. -/
theorem declaresLost_seven :
    (⟨{ sessionId := 1 }, ⟨1000000000, 7⟩⟩ : MonitoredSession).DeclaresLost ⟨3000000000, 7⟩ ↔
      Stale [⟨1000000000, 7⟩] ⟨3000000000, 7⟩ :=
  have hrun : exec step (opened 1) [⟨1000000000, 7⟩]
      = some ⟨{ sessionId := 1 }, ⟨1000000000, 7⟩⟩ := by decide
  (declaresLost_iff_stale_iff hrun rfl (by simp)).mpr (.inl ⟨_, List.mem_cons_self, by decide⟩)

/-- **The first reading is zero**, two seconds after the epoch of the clock: the session is lost at
once. -/
theorem not_declaresLost_iff_stale :
    (opened 1).session.state = .connectedMonitor ∧ (opened 1).DeclaresLost ⟨2000000000, 0⟩ ∧
      ¬ Stale [] ⟨2000000000, 0⟩ ∧
      ¬ ((opened 1).DeclaresLost ⟨2000000000, 0⟩ ↔ Stale [] ⟨2000000000, 0⟩) := by
  have hlost : (opened 1).DeclaresLost ⟨2000000000, 0⟩ := by decide
  have hstale : ¬ Stale [] ⟨2000000000, 0⟩ := by
    rintro ⟨front, x, back, hsplit, -⟩
    simp at hsplit
  exact ⟨rfl, hlost, hstale, fun h => hstale (h.mp hlost)⟩

end ScApi
