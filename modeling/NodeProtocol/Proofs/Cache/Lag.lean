import Mathlib.Data.List.Range
import Mathlib.Tactic.Ring
import NodeProtocol.Proofs.Cache.Events
import NodeProtocol.Proofs.Cache.Sweeping
import NodeProtocol.Proofs.Fallible

/-!
# How far the background sweep lags behind

Between two ticks of the clock a dead entry may still be there, but none outlasts the next tick.
`Prompt` says this of one moment, and every step keeps it: an entry that is put lives beyond the
present, no other operation gives an entry more or less time, and the clock does not pass a tick
without a sweep at that tick or later.

* `mem_ticks` and `cache_pass`: when the background sweep runs, and that all it does are these
  sweeps, one after another.
* `Prompt.step` and `Prompt.run`: the bound is kept.
* `lag_bounded`: the bound, what it says about the size, and that nobody is swept while alive.
-/

namespace NodeProtocol

namespace Cache

variable {κ ν ρ : Type}

/-! ## Ticks -/

def ticks (interval start stop : Nat) : List Nat :=
  (List.range' (start / interval + 1) (stop / interval - start / interval)).map (· * interval)

theorem mem_ticks {interval start stop time : Nat} (positive : 0 < interval) :
    time ∈ ticks interval start stop ↔ start < time ∧ time ≤ stop ∧ interval ∣ time := by
  rw [ticks, List.mem_map]
  simp only [List.mem_range'_1]
  constructor
  · rintro ⟨m, ⟨after, before⟩, rfl⟩
    refine ⟨(Nat.div_lt_iff_lt_mul positive).mp after, ?_, Nat.dvd_mul_left interval m⟩
    exact (Nat.le_div_iff_mul_le positive).mp (by omega)
  · rintro ⟨after, before, m, rfl⟩
    rw [Nat.mul_comm] at after before ⊢
    have first := (Nat.div_lt_iff_lt_mul positive).mpr after
    have last := (Nat.le_div_iff_mul_le positive).mpr before
    exact ⟨m, ⟨first, by omega⟩, rfl⟩

theorem ticks_eq_nil {interval start stop : Nat} (h : ¬ ticksBetween interval start stop) :
    ticks interval start stop = [] := by
  have none_left : stop / interval - start / interval = 0 := by
    simpa [ticksBetween, Nat.sub_eq_zero_iff_le] using h
  rw [ticks, none_left]
  rfl

theorem exists_ticks_concat {interval start stop : Nat} (h : ticksBetween interval start stop) :
    ∃ earlier, ticks interval start stop = earlier ++ [stop / interval * interval] ∧
      ∀ time ∈ earlier, time ≤ stop / interval * interval := by
  have before : start / interval < stop / interval := by simpa [ticksBetween] using h
  obtain ⟨n, last⟩ := Nat.exists_eq_add_of_lt before
  refine ⟨(List.range' (start / interval + 1) n).map (· * interval), ?_, ?_⟩
  · have count : stop / interval - start / interval = n + 1 := by omega
    have same : start / interval + 1 + n = stop / interval := by omega
    rw [ticks, count, List.range'_1_concat, List.map_append, same]
    rfl
  · intro time member
    obtain ⟨m, inside, rfl⟩ := List.mem_map.mp member
    rw [List.mem_range'_1] at inside
    exact Nat.mul_le_mul_right interval (by omega)

theorem pairwise_ticks {interval : Nat} (positive : 0 < interval) (start stop : Nat) :
    (ticks interval start stop).Pairwise (· < ·) := by
  rw [ticks, List.pairwise_map]
  refine List.Pairwise.imp ?_ List.pairwise_lt_range'
  exact fun ordered => Nat.mul_lt_mul_of_pos_right ordered positive

theorem ticksBetween_iff {interval start stop : Nat} (positive : 0 < interval) :
    ticksBetween interval start stop ↔ ∃ tick, start < tick ∧ tick ≤ stop ∧ interval ∣ tick := by
  simp only [← mem_ticks positive]
  constructor
  · intro between
    obtain ⟨earlier, split, -⟩ := exists_ticks_concat between
    exact ⟨_, split ▸ List.mem_concat_self⟩
  · rintro ⟨tick, member⟩
    by_contra still
    rw [ticks_eq_nil still] at member
    cases member

/-! ## Sweeps one after another -/

variable [DecidableEq κ] {cache : Cache κ ν}

def sweepAt (cache : Cache κ ν) (times : List Nat) : Cache κ ν :=
  times.foldl (fun cache now => (cache.sweep now).2) cache

def SweepsDead (cache : Cache κ ν) (now : Nat) : Prop :=
  ∀ key, (cache.sweep now).2.entries.get? key =
    (cache.entries.get? key).filter (now < ·.expiresAt)

namespace Consistent

theorem sweepAt (h : cache.Consistent) (times : List Nat) : (cache.sweepAt times).Consistent := by
  induction times generalizing cache with
  | nil => exact h
  | cons time times ih => exact ih (h.sweep time)

theorem sweepAt_concat (h : cache.Consistent) {times : List Nat} {last : Nat}
    (before : ∀ time ∈ times, time ≤ last) :
    cache.sweepAt (times ++ [last]) = (cache.sweep last).2 := by
  induction times generalizing cache with
  | nil => rfl
  | cons time times ih =>
      rw [List.forall_mem_cons] at before
      calc cache.sweepAt (time :: times ++ [last])
        _ = (cache.sweep time).2.sweepAt (times ++ [last]) := rfl
        _ = ((cache.sweep time).2.sweep last).2 := ih (h.sweep time) before.2
        _ = (cache.sweep last).2 := h.sweep_sweep before.1

theorem sweepThrough_eq (h : cache.Consistent) (interval start stop : Nat) :
    cache.sweepThrough interval start stop = cache.sweepAt (ticks interval start stop) := by
  rw [sweepThrough]
  split
  case isTrue between =>
    obtain ⟨earlier, split, before⟩ := exists_ticks_concat between
    rw [split, h.sweepAt_concat before]
  case isFalse still =>
    rw [ticks_eq_nil still]
    rfl

end Consistent

/-! ## What every operation keeps -/

structure Lasting (cache : Cache κ ν) : Prop where
  consistent : cache.Consistent
  sound : cache.useList.Sound
  lifeSpan_pos : 0 < cache.lifeSpan

namespace Lasting

theorem ofConfig {config : Config} (lasting : 0 < config.lifeSpan) :
    (Cache.ofConfig config : Cache κ ν).Lasting :=
  ⟨consistent_ofConfig config, UseList.sound_ofConfig config, lasting⟩

theorem useList_perform (h : cache.Lasting) (now : Nat) (op : Op κ ν ρ) :
    (cache.perform now op).2.useList = (cache.useList.perform now op).2 := by
  rw [h.consistent.perform_useList, Prod.map]

theorem perform (h : cache.Lasting) (now : Nat) (op : Op κ ν ρ) :
    (cache.perform now op).2.Lasting where
  consistent := h.consistent.perform now op
  sound := h.useList_perform now op ▸ h.sound.perform now op
  lifeSpan_pos := by
    have settings := UseList.settings_perform cache.useList now op
    rw [← h.useList_perform] at settings
    exact Nat.lt_of_lt_of_eq h.lifeSpan_pos settings.2.1.symm

theorem sweep (h : cache.Lasting) (now : Nat) : (cache.sweep now).2.Lasting :=
  h.perform now (.sweep : Op κ ν Unit)

end Lasting

end Cache

namespace ClockedCache

open Cache

variable {κ ν ρ : Type} {clocked : ClockedCache κ ν}

theorem eq_of_ofConfig {config : Config} {hasRuntime : Bool}
    (made : ofConfig config hasRuntime = .ok clocked) :
    0 < config.sweepInterval ∧ clocked = ⟨.ofConfig config, config.sweepInterval, 0⟩ := by
  obtain ⟨_, checked, built⟩ := bind_eq_ok.mp made
  cases hasRuntime with
  | false => cases built
  | true =>
      cases built
      refine ⟨Nat.pos_of_ne_zero fun zero => ?_, rfl⟩
      change config.check = .ok _ at checked
      rw [Config.check, if_pos zero] at checked
      split at checked <;> cases checked

/-! ## When the clock goes on -/

inductive Passage
  | sleep (duration : Nat)
  | jump (duration : Nat)

def lastTick (clocked : ClockedCache κ ν) : Nat :=
  clocked.now / clocked.sweepInterval * clocked.sweepInterval

def sweepTimes (clocked : ClockedCache κ ν) : Passage → List Nat
  | .sleep duration =>
    ticks clocked.sweepInterval clocked.now (clocked.now + sleepLength duration)
  | .jump duration =>
    if ticksBetween clocked.sweepInterval clocked.now (clocked.now + duration) then
      [clocked.now + duration]
    else []

/-- When a sweep runs while the clock goes on: while sleeping at each multiple of the interval, and
after a jump over some of them once, at its end. -/
def Passage.SweepsAt (interval now time : Nat) : Passage → Prop
  | .sleep duration => now < time ∧ time ≤ now + sleepLength duration ∧ interval ∣ time
  | .jump duration =>
    time = now + duration ∧ ∃ tick, now < tick ∧ tick ≤ now + duration ∧ interval ∣ tick

theorem mem_sweepTimes (positive : 0 < clocked.sweepInterval) (passage : Passage) (time : Nat) :
    time ∈ clocked.sweepTimes passage ↔
      passage.SweepsAt clocked.sweepInterval clocked.now time := by
  cases passage with
  | sleep duration => exact mem_ticks positive
  | jump duration =>
      rw [sweepTimes, Passage.SweepsAt, ← ticksBetween_iff positive]
      split
      case isTrue between => simp [between]
      case isFalse still => simp [still]

theorem pairwise_sweepTimes (positive : 0 < clocked.sweepInterval) (passage : Passage) :
    (clocked.sweepTimes passage).Pairwise (· < ·) := by
  cases passage with
  | sleep duration => exact pairwise_ticks positive ..
  | jump duration =>
      rw [sweepTimes]
      split
      · exact List.pairwise_singleton ..
      · exact .nil

/-! ## Runs on the clock -/

variable [DecidableEq κ]

inductive Step (κ ν ρ : Type)
  | ask (op : Op κ ν ρ)
  | pass (passage : Passage)

def pass (clocked : ClockedCache κ ν) : Passage → ClockedCache κ ν
  | .sleep duration => clocked.sleep duration
  | .jump duration => clocked.jump duration

def step (clocked : ClockedCache κ ν) : Step κ ν ρ → ClockedCache κ ν
  | .ask op => { clocked with cache := (clocked.cache.perform clocked.now op).2 }
  | .pass passage => clocked.pass passage

def run (clocked : ClockedCache κ ν) (steps : List (Step κ ν ρ)) : ClockedCache κ ν :=
  steps.foldl step clocked

theorem cache_pass (h : clocked.cache.Consistent) (passage : Passage) :
    (clocked.pass passage).cache = clocked.cache.sweepAt (clocked.sweepTimes passage) := by
  cases passage with
  | sleep duration => exact h.sweepThrough_eq ..
  | jump duration =>
      rw [sweepTimes, pass, jump, sweepAfter]
      split <;> rfl

theorem sweepInterval_run (clocked : ClockedCache κ ν) (steps : List (Step κ ν ρ)) :
    (clocked.run steps).sweepInterval = clocked.sweepInterval := by
  induction steps generalizing clocked with
  | nil => rfl
  | cons step steps ih =>
      have same : (clocked.step step).sweepInterval = clocked.sweepInterval := by
        rcases step with op | duration | duration <;> rfl
      exact (ih _).trans same

/-! ## The bound -/

/-- No entry is there that was dead by the last tick. -/
structure Prompt (clocked : ClockedCache κ ν) : Prop where
  lasting : clocked.cache.Lasting
  swept : ∀ use ∈ clocked.cache.uses, clocked.lastTick < use.expiresAt

namespace Prompt

theorem ask (h : clocked.Prompt) (op : Op κ ν ρ) : (clocked.step (.ask op)).Prompt where
  lasting := h.lasting.perform clocked.now op
  swept := by
    intro use member
    change use ∈ (clocked.cache.perform clocked.now op).2.useList.uses at member
    rw [h.lasting.useList_perform] at member
    cases h.lasting.sound.origin member with
    | put _ _ _ expires =>
        have tick : clocked.lastTick ≤ clocked.now := Nat.div_mul_le_self ..
        calc clocked.lastTick
          _ ≤ clocked.now := tick
          _ < clocked.now + clocked.cache.lifeSpan := Nat.lt_add_of_pos_right h.lasting.lifeSpan_pos
          _ = use.expiresAt := expires.symm
    | kept old there _ same => exact same ▸ h.swept old there

theorem sweep (h : clocked.Prompt) {time stop : Nat}
    (recent : stop / clocked.sweepInterval * clocked.sweepInterval ≤ time) :
    Prompt { clocked with cache := (clocked.cache.sweep time).2, now := stop } where
  lasting := h.lasting.sweep time
  swept := by
    intro use member
    rw [h.lasting.consistent.uses_sweep] at member
    have living : time < use.expiresAt := by simpa using (List.mem_filter.mp member).2
    exact Nat.lt_of_le_of_lt recent living

theorem wait (h : clocked.Prompt) {stop : Nat} (later : clocked.now ≤ stop)
    (still : ¬ ticksBetween clocked.sweepInterval clocked.now stop) :
    Prompt { clocked with now := stop } where
  lasting := h.lasting
  swept := by
    have ordered : clocked.now / clocked.sweepInterval ≤ stop / clocked.sweepInterval :=
      Nat.div_le_div_right later
    have same : clocked.now / clocked.sweepInterval = stop / clocked.sweepInterval := by
      simp only [ticksBetween, decide_eq_true_eq] at still
      omega
    intro use member
    change stop / clocked.sweepInterval * clocked.sweepInterval < use.expiresAt
    exact same ▸ h.swept use member

theorem pass (h : clocked.Prompt) (passage : Passage) : (clocked.pass passage).Prompt := by
  cases passage with
  | sleep duration =>
      rw [ClockedCache.pass, ClockedCache.sleep, sweepThrough]
      split
      case isTrue => exact h.sweep (Nat.le_refl _)
      case isFalse still => exact h.wait (Nat.le_add_right ..) still
  | jump duration =>
      rw [ClockedCache.pass, ClockedCache.jump, sweepAfter]
      split
      case isTrue => exact h.sweep (Nat.div_mul_le_self ..)
      case isFalse still => exact h.wait (Nat.le_add_right ..) still

theorem step (h : clocked.Prompt) (step : Step κ ν ρ) : (clocked.step step).Prompt := by
  cases step with
  | ask op => exact h.ask op
  | pass passage => exact h.pass passage

theorem run (h : clocked.Prompt) (steps : List (Step κ ν ρ)) : (clocked.run steps).Prompt := by
  induction steps generalizing clocked with
  | nil => exact h
  | cons step steps ih => exact ih (h.step step)

theorem lastTick_lt (h : clocked.Prompt) {key : κ} {entry : Entry ν}
    (found : clocked.cache.entries.get? key = some entry) : clocked.lastTick < entry.expiresAt :=
  h.swept (entry.toUse key) ((mem_usesBy h.lasting.consistent.recency).mpr ⟨entry, found, rfl⟩)

theorem size_eq (h : clocked.Prompt) :
    clocked.cache.size =
      clocked.cache.entries.pairs.countP (clocked.now < ·.2.expiresAt) +
      clocked.cache.entries.pairs.countP fun pair =>
        clocked.lastTick < pair.2.expiresAt ∧ pair.2.expiresAt ≤ clocked.now := by
  rw [Cache.size, Table.size,
    List.length_eq_countP_add_countP fun pair => clocked.now < pair.2.expiresAt]
  congr 1
  apply List.countP_congr
  intro pair member
  have recent := h.lastTick_lt (Table.get?_of_mem h.lasting.consistent.nodup member)
  simp [recent]

end Prompt

theorem lag_bounded {config : Config} {hasRuntime : Bool} {start : ClockedCache κ ν}
    (lasting : 0 < config.lifeSpan) (made : ofConfig config hasRuntime = .ok start)
    (steps : List (Step κ ν ρ)) :
    let clocked := start.run steps
    let lastTick := clocked.now / config.sweepInterval * config.sweepInterval
    (∀ key entry, clocked.cache.entries.get? key = some entry → lastTick < entry.expiresAt) ∧
    clocked.cache.size =
      clocked.cache.entries.pairs.countP (clocked.now < ·.2.expiresAt) +
      clocked.cache.entries.pairs.countP (fun pair =>
        lastTick < pair.2.expiresAt ∧ pair.2.expiresAt ≤ clocked.now) ∧
    clocked.cache.SweepsDead clocked.now ∧
    ∀ passage,
      (clocked.sweepTimes passage).Pairwise (· < ·) ∧
      (∀ time, time ∈ clocked.sweepTimes passage ↔
        passage.SweepsAt config.sweepInterval clocked.now time) ∧
      (clocked.pass passage).cache = clocked.cache.sweepAt (clocked.sweepTimes passage) ∧
      ∀ earlier time later, clocked.sweepTimes passage = earlier ++ time :: later →
        (clocked.cache.sweepAt earlier).SweepsDead time := by
  intro clocked lastTick
  obtain ⟨positive, rfl⟩ := eq_of_ofConfig made
  have interval : clocked.sweepInterval = config.sweepInterval := sweepInterval_run ..
  have initial : Prompt (⟨.ofConfig config, config.sweepInterval, 0⟩ : ClockedCache κ ν) :=
    ⟨.ofConfig lasting, nofun⟩
  have prompt : clocked.Prompt := initial.run steps
  have consistent := prompt.lasting.consistent
  have tick : clocked.lastTick = lastTick := by rw [ClockedCache.lastTick, interval]
  rw [← tick]
  refine ⟨fun _ _ => prompt.lastTick_lt, prompt.size_eq, consistent.get?_sweep _, ?_⟩
  intro passage
  rw [← interval] at positive ⊢
  refine ⟨pairwise_sweepTimes positive passage, mem_sweepTimes positive passage,
    cache_pass consistent passage, fun earlier time _ _ => ?_⟩
  exact (consistent.sweepAt earlier).get?_sweep time

theorem lag_bounded_between_ticks :
    let start : ClockedCache Nat Nat := ⟨.ofConfig { lifeSpan := 5, sweepInterval := 4 }, 4, 0⟩
    let steps : List (Step Nat Nat Unit) := [.ask (.put 1 10), .pass (.sleep 5), .ask (.put 2 20)]
    let clocked := start.run steps
    clocked.now = 5 ∧ clocked.cache.size = 1 + 1 ∧ clocked.cache.SweepsDead 5 ∧
    clocked.sweepTimes (.jump 8) = [13] ∧ (clocked.cache.sweepAt []).SweepsDead 13 ∧
    (clocked.pass (.jump 8)).cache.size = 0 ∧
    clocked.sweepTimes (.sleep 8) = [8, 12] ∧ (clocked.cache.sweepAt [8]).SweepsDead 12 := by
  have made : ofConfig { lifeSpan := 5, sweepInterval := 4 } true =
      .ok (⟨.ofConfig { lifeSpan := 5, sweepInterval := 4 }, 4, 0⟩ : ClockedCache Nat Nat) := rfl
  obtain ⟨-, size, sweeps, passing⟩ := lag_bounded (ρ := Unit) (by decide) made
    [.ask (.put 1 10), .pass (.sleep 5), .ask (.put 2 20)]
  obtain ⟨-, -, jumped, jumpSweeps⟩ := passing (.jump 8)
  obtain ⟨-, -, -, sleepSweeps⟩ := passing (.sleep 8)
  exact ⟨rfl, size, sweeps, rfl, jumpSweeps [] 13 [] rfl, congrArg (·.size) jumped, rfl,
    sleepSweeps [8] 12 [] rfl⟩

end ClockedCache

end NodeProtocol
