import BrowserPilot.Proofs.Browser.Sessions
import Mathlib.Data.List.Basic

/-! One session that is opened and closed any number of times, with any faults. Each browser and each driver is
released at most once and only if it was acquired; if openings and closings alternate, every one is released. -/
namespace BrowserPilot.Browser

/-- A call of the kind stands at the position and has succeeded. -/
def World.Began (w : World) (log : Log) (kind : CallKind) (position : Nat) : Prop :=
  ∃ c, log[position]? = some c ∧ c.kind = kind ∧ w.Succeeds (log.take position) c

/-- The resources of a session that launches a browser. -/
inductive Resource
  | driver
  | browser
deriving DecidableEq, Repr

namespace Resource

def beginning : Resource → CallKind
  | driver => .start
  | browser => .launch

/-- The call that releases the resource acquired at the position. -/
def ending : Resource → Nat → Call
  | driver => .stop
  | browser => .closeBrowser

/-- The index of the acquiring call among the calls of an opening. -/
def place : Resource → Nat
  | driver => 0
  | browser => 1

end Resource

/-- The position at which a held resource was acquired. -/
def Held.position? (held : Held) : Resource → Option Nat
  | .driver => held.driver
  | .browser => held.browser

theorem Held.position?_nothing (r : Resource) : nothing.position? r = none := by
  cases r <;> rfl

theorem Held.position?_gained (held : Held) (position reached : Nat) (r : Resource) :
    (held.gained position reached).position? r =
      if r.place < reached then some (position + r.place) else held.position? r := by
  cases r <;> rfl

namespace World
variable {w : World} {past : Log} {cs : List Call} {c : Call} {n i : Nat}

theorem Reaches.succeeds_of_lt (h : w.Reaches past cs n) (hi : i < n) (hc : cs[i]? = some c) :
    w.Succeeds (past ++ cs.take i) c := by
  induction h generalizing i with
  | done past => cases hi
  | fails cs hf => cases hi
  | @succeeds past d cs n hd _ ih =>
    cases i with
    | zero =>
      obtain rfl := Option.some.inj hc
      simpa using hd
    | succ i => simpa using ih (Nat.lt_of_succ_lt_succ hi) hc

theorem Reaches.not_succeeds_at (h : w.Reaches past cs n) (hc : cs[n]? = some c) :
    ¬ w.Succeeds (past ++ cs.take n) c := by
  induction h with
  | done past => cases hc
  | fails cs hf =>
    obtain rfl := Option.some.inj hc
    simpa using hf
  | succeeds _ _ ih => simpa using ih hc

theorem Began.lt_length {log : Log} {kind : CallKind} {p : Nat} (h : w.Began log kind p) : p < log.length := by
  obtain ⟨c, hc, _⟩ := h
  exact (List.getElem?_eq_some_iff.mp hc).1

theorem began_append_of_lt {log : Log} {kind : CallKind} {p : Nat} (hp : p < log.length) (more : Log) :
    w.Began (log ++ more) kind p ↔ w.Began log kind p := by
  unfold Began
  rw [List.getElem?_append_left hp, List.take_append_of_le_length (Nat.le_of_lt hp)]

theorem Began.append {log : Log} {kind : CallKind} {p : Nat} (h : w.Began log kind p) (more : Log) :
    w.Began (log ++ more) kind p :=
  (began_append_of_lt h.lt_length more).mpr h

theorem began_append_of_le {log : Log} {kind : CallKind} {p : Nat} (hp : log.length ≤ p) (more : Log) :
    w.Began (log ++ more) kind p ↔
      ∃ c, more[p - log.length]? = some c ∧ c.kind = kind ∧ w.Succeeds (log ++ more.take (p - log.length)) c := by
  unfold Began
  rw [List.getElem?_append_right hp, List.take_append, List.take_of_length_le hp]

end World

namespace LaunchOptions

theorem kind_opening_place (o : LaunchOptions) (r : Resource) :
    ∃ c, o.opening[r.place]? = some c ∧ c.kind = r.beginning := by
  cases r <;> exact ⟨_, rfl, rfl⟩

theorem eq_place_of_kind {o : LaunchOptions} {r : Resource} {i : Nat} {c : Call} (h : o.opening[i]? = some c)
    (hk : c.kind = r.beginning) : i = r.place := by
  obtain ⟨hi, rfl⟩ := List.getElem?_eq_some_iff.mp h
  have hi : i < 4 := hi
  have hi : i = 0 ∨ i = 1 ∨ i = 2 ∨ i = 3 := by omega
  rcases hi with rfl | rfl | rfl | rfl <;> cases r <;> first | rfl | cases hk

theorem ending_notMem_opening (o : LaunchOptions) (r : Resource) (p n : Nat) : r.ending p ∉ o.opening.take n := by
  intro h
  have hk : (r.ending p).kind ∈ CallKind.opening :=
    Session.kind_of_mem_opening (s := .launching o) (List.mem_of_mem_take h)
  cases r <;> simp [Resource.ending, Call.kind, CallKind.opening] at hk

/-- An opening acquires the resources whose calls come before the first failing one. -/
theorem began_opening_iff {w : World} {o : LaunchOptions} {log : Log} {n p : Nat} (h : w.Reaches log o.opening n)
    (r : Resource) (hp : log.length ≤ p) :
    w.Began (log ++ o.opening.take (n + 1)) r.beginning p ↔ p = log.length + r.place ∧ r.place < n := by
  rw [World.began_append_of_le hp]
  constructor
  · rintro ⟨c, hc, hk, hs⟩
    rw [List.getElem?_take] at hc
    split at hc
    · rename_i hi
      have he := eq_place_of_kind hc hk
      rw [List.take_take, Nat.min_eq_left (Nat.le_of_lt hi)] at hs
      refine ⟨by omega, ?_⟩
      by_contra hn
      obtain rfl : n = p - log.length := by omega
      exact h.not_succeeds_at hc hs
    · cases hc
  · rintro ⟨rfl, hn⟩
    obtain ⟨c, hc, hk⟩ := o.kind_opening_place r
    rw [Nat.add_sub_cancel_left]
    refine ⟨c, by rw [List.getElem?_take, if_pos (by omega), hc], hk, ?_⟩
    rw [List.take_take, Nat.min_eq_left (by omega)]
    exact h.succeeds_of_lt hn hc

end LaunchOptions

namespace World

/-- The result of an optional call. -/
def tried (w : World) (past : Log) : Option Call → Except Failure Unit
  | none => .ok ()
  | some c => (w.respond past c).map fun _ => ()

variable {w : World} {past : Log} {call : Option Call}

theorem tried_eq_error_iff {f : Failure} : w.tried past call = .error f ↔ ∃ c ∈ call, w.respond past c = .error f := by
  cases call with
  | none => simp [tried]
  | some c => cases h : w.respond past c <;> simp [tried, h, Except.map]

theorem tried_eq_ok_iff : w.tried past call = .ok () ↔ ∀ c ∈ call, w.Succeeds past c := by
  cases call with
  | none => simp [tried]
  | some c => cases h : w.respond past c <;> simp [tried, Succeeds, h, Except.map]

end World

namespace Session

/-- Releases the held resources, the browser first. -/
def endAll (w : World) (held : Held) : Attempt Desk Unit := do
  let closed ← Attempt.result (endBrowser w held.browser)
  endDriver w held.driver
  Attempt.ofResult closed

theorem run_endBrowser (w : World) (browser : Option Nat) (d : Desk) :
    (endBrowser w browser).run d =
      (w.tried d.log (browser.map .closeBrowser),
        { d with log := d.log ++ (browser.map Call.closeBrowser).toList }) := by
  refine Prod.ext ?_ (log_endBrowser w browser d)
  cases browser with
  | none => rfl
  | some position => rw [endBrowser, run_perform_]; rfl

theorem run_endDriver (w : World) (driver : Option Nat) (d : Desk) :
    (endDriver w driver).run d =
      (w.tried d.log (driver.map .stop),
        { d with log := d.log ++ (driver.map Call.stop).toList }) := by
  refine Prod.ext ?_ (log_endDriver w driver d)
  cases driver with
  | none => rfl
  | some position => rw [endDriver, run_perform_]; rfl

theorem run_close_eq (w : World) (o : LaunchOptions) (d : Desk) :
    ((launching o).close w).run d = (endAll w d.held).run ⟨.nothing, d.log⟩ := rfl

theorem run_endAll (w : World) (o : LaunchOptions) (held : Held) (d : Desk) :
    (endAll w held).run d =
      ((w.tried (d.log ++ (held.browser.map Call.closeBrowser).toList) (held.driver.map .stop)).bind fun _ =>
          w.tried d.log (held.browser.map .closeBrowser),
        { d with log := d.log ++ (launching o).closing held }) := by
  simp only [endAll, Attempt.run_bind, Attempt.run_result, run_endBrowser, run_endDriver, closing]
  cases w.tried (d.log ++ (held.browser.map Call.closeBrowser).toList) (held.driver.map .stop) <;>
    simp [Except.bind, Attempt.run_ofResult]

/-- A closing holds nothing afterwards and has made the calls that release what was held, whether or not they fail. -/
theorem after_close (w : World) (o : LaunchOptions) (d : Desk) :
    (((launching o).close w).run d).2 = ⟨.nothing, d.log ++ (launching o).closing d.held⟩ := by
  rw [run_close_eq, run_endAll w o]

/-- A closing fails with the failure of the driver, or else with that of the browser. -/
theorem close_eq_error_iff (w : World) (o : LaunchOptions) (d : Desk) (f : Failure) :
    (((launching o).close w).run d).1 = .error f ↔
      (∃ c ∈ d.held.driver.map Call.stop,
        w.respond (d.log ++ (d.held.browser.map Call.closeBrowser).toList) c = .error f) ∨
      (∀ c ∈ d.held.driver.map Call.stop,
        w.Succeeds (d.log ++ (d.held.browser.map Call.closeBrowser).toList) c) ∧
        ∃ c ∈ d.held.browser.map Call.closeBrowser, w.respond d.log c = .error f := by
  rw [run_close_eq, run_endAll w o, ← World.tried_eq_error_iff, ← World.tried_eq_ok_iff, ← World.tried_eq_error_iff]
  cases w.tried (d.log ++ (d.held.browser.map Call.closeBrowser).toList) (d.held.driver.map Call.stop) <;>
    simp [Except.bind]

/-- Without held resources a closing makes no call. -/
theorem run_close_of_nothing (w : World) (o : LaunchOptions) (log : Log) :
    ((launching o).close w).run ⟨.nothing, log⟩ = (.ok (), ⟨.nothing, log⟩) := by
  rw [run_close_eq, run_endAll w o]
  simp [Held.nothing, closing, World.tried, Except.bind]

theorem count_closing (o : LaunchOptions) (held : Held) (r : Resource) (p : Nat) :
    List.count (r.ending p) ((launching o).closing held) = if held.position? r = some p then 1 else 0 := by
  obtain ⟨browser, driver⟩ := held
  cases r <;> cases browser <;> cases driver <;>
    simp [closing, Resource.ending, Held.position?, List.count_cons, beq_eq_decide]

theorem mem_closing_iff {o : LaunchOptions} {held : Held} {r : Resource} {p : Nat} :
    r.ending p ∈ (launching o).closing held ↔ held.position? r = some p := by
  rw [← List.count_pos_iff, count_closing]
  split <;> simp [*]

/-- A closing acquires nothing. -/
theorem began_closing_iff {w : World} {log : Log} {o : LaunchOptions} {held : Held} {r : Resource} {p : Nat} :
    w.Began (log ++ (launching o).closing held) r.beginning p ↔ w.Began log r.beginning p := by
  rcases Nat.lt_or_ge p log.length with hp | hp
  · exact World.began_append_of_lt hp _
  · refine iff_of_false ?_ fun h => Nat.not_lt.mpr hp h.lt_length
    rw [World.began_append_of_le hp]
    rintro ⟨c, hc, hk, _⟩
    have hm := kind_of_mem_closing (List.mem_of_getElem? hc)
    rw [hk] at hm
    cases r <;> exact absurd hm (by decide)

/-! ### Moves -/

/-- The state after moves, each of which is made whether or not those before it failed. -/
def after (w : World) (s : Session) (d : Desk) (moves : List Move) : Desk :=
  moves.foldl (fun d m => ((s.act w m).run d).2) d

/-- The invariant of one resource since the log `past`: what is held was acquired and not released; what was
released was acquired, and released once. -/
structure Tracks (w : World) (past : Log) (r : Resource) (held : Held) (made : Log) : Prop where
  held : ∀ p, held.position? r = some p →
    past.length ≤ p ∧ w.Began (past ++ made) r.beginning p ∧ r.ending p ∉ made
  ended : ∀ p, r.ending p ∈ made → past.length ≤ p ∧ w.Began (past ++ made) r.beginning p
  once : ∀ p, List.count (r.ending p) made ≤ 1

/-- Every acquired resource is held or was released. -/
def Accounts (w : World) (past : Log) (r : Resource) (held : Held) (made : Log) : Prop :=
  ∀ p, past.length ≤ p → w.Began (past ++ made) r.beginning p → held.position? r = some p ∨ r.ending p ∈ made

section
variable {w : World} {past made : Log} {o : LaunchOptions} {held : Held} {r : Resource} {n : Nat}

theorem tracks_nothing (w : World) (past : Log) (r : Resource) : Tracks w past r .nothing [] := by
  refine ⟨fun p hp => ?_, fun p hp => ?_, fun p => Nat.zero_le 1⟩
  · rw [Held.position?_nothing] at hp
    cases hp
  · cases hp

/-- A resource acquired by an opening has a new position, which no earlier call has released. -/
theorem Tracks.opened (h : Tracks w past r held made) (hn : w.Reaches (past ++ made) o.opening n) :
    Tracks w past r (held.gained (past ++ made).length n) (made ++ o.opening.take (n + 1)) := by
  have hno (p : Nat) : r.ending p ∉ o.opening.take (n + 1) := o.ending_notMem_opening r p (n + 1)
  have hended {p : Nat} (hp : r.ending p ∈ made ++ o.opening.take (n + 1)) : r.ending p ∈ made :=
    (List.mem_append.mp hp).resolve_right (hno p)
  refine ⟨fun p hp => ?_, fun p hp => ?_, fun p => ?_⟩
  · rw [Held.position?_gained] at hp
    rw [← List.append_assoc]
    split at hp
    · rename_i hr
      obtain rfl := Option.some.inj hp
      have hle : past.length ≤ (past ++ made).length := by simp
      refine ⟨by omega, (LaunchOptions.began_opening_iff hn r (by omega)).mpr ⟨rfl, hr⟩, fun hm => ?_⟩
      have := (h.ended _ (hended hm)).2.lt_length
      omega
    · obtain ⟨hle, hb, hm⟩ := h.held p hp
      exact ⟨hle, hb.append _, fun he => hm (hended he)⟩
  · rw [← List.append_assoc]
    exact (h.ended p (hended hp)).imp_right fun hb => hb.append _
  · rw [List.count_append, List.count_eq_zero.mpr (hno p)]
    exact h.once p

theorem Tracks.closed (h : Tracks w past r held made) :
    Tracks w past r .nothing (made ++ (launching o).closing held) := by
  refine ⟨fun p hp => ?_, fun p hp => ?_, fun p => ?_⟩
  · rw [Held.position?_nothing] at hp
    cases hp
  · rw [← List.append_assoc, began_closing_iff]
    rcases List.mem_append.mp hp with hp | hp
    · exact h.ended p hp
    · obtain ⟨hle, hb, _⟩ := h.held p (mem_closing_iff.mp hp)
      exact ⟨hle, hb⟩
  · rw [List.count_append, count_closing]
    split
    · rename_i hp
      have hz := List.count_eq_zero.mpr (h.held p hp).2.2
      omega
    · exact h.once p

theorem Accounts.opened (h : Accounts w past r .nothing made) (hn : w.Reaches (past ++ made) o.opening n) :
    Accounts w past r (Held.nothing.gained (past ++ made).length n) (made ++ o.opening.take (n + 1)) := by
  intro p hle hb
  rw [← List.append_assoc] at hb
  rcases Nat.lt_or_ge p (past ++ made).length with hp | hp
  · have hm := h p hle ((World.began_append_of_lt hp _).mp hb)
    rw [Held.position?_nothing] at hm
    exact .inr (List.mem_append_left _ (hm.resolve_left (by simp)))
  · obtain ⟨rfl, hr⟩ := (LaunchOptions.began_opening_iff hn r hp).mp hb
    rw [Held.position?_gained, if_pos hr]
    exact .inl rfl

theorem Accounts.closed (h : Accounts w past r held made) :
    Accounts w past r .nothing (made ++ (launching o).closing held) := by
  intro p hle hb
  rw [← List.append_assoc, began_closing_iff] at hb
  refine .inr (List.mem_append.mpr ?_)
  exact (h p hle hb).symm.imp_right mem_closing_iff.mpr

end

/-- A move is an opening, up to its first failing call, or a closing. -/
theorem after_cons_openUp (w : World) (o : LaunchOptions) (held : Held) (log : Log) (moves : List Move) :
    ∃ n, w.Reaches log o.opening n ∧
      (launching o).after w ⟨held, log⟩ (.openUp :: moves) =
        (launching o).after w ⟨held.gained log.length n, log ++ o.opening.take (n + 1)⟩ moves := by
  obtain ⟨n, hn, he, _⟩ := run_openUp_launching w o ⟨held, log⟩
  exact ⟨n, hn, congrArg (fun d => after w (launching o) d moves) he⟩

theorem after_cons_close (w : World) (o : LaunchOptions) (held : Held) (log : Log) (moves : List Move) :
    (launching o).after w ⟨held, log⟩ (.close :: moves) =
      (launching o).after w ⟨.nothing, log ++ (launching o).closing held⟩ moves :=
  congrArg (fun d => after w (launching o) d moves) (after_close w o ⟨held, log⟩)

/-- Every sequence of moves preserves the invariant. -/
theorem tracks_after {w : World} {past made : Log} {held : Held} (o : LaunchOptions) (moves : List Move)
    (h : ∀ r, Tracks w past r held made) :
    ∃ held' made', (launching o).after w ⟨held, past ++ made⟩ moves = ⟨held', past ++ made'⟩ ∧
      ∀ r, Tracks w past r held' made' := by
  induction moves generalizing held made with
  | nil => exact ⟨held, made, rfl, h⟩
  | cons m moves ih =>
    cases m with
    | openUp =>
      obtain ⟨n, hn, he⟩ := after_cons_openUp w o held (past ++ made) moves
      rw [he, List.append_assoc]
      exact ih fun r => (h r).opened hn
    | close =>
      rw [after_cons_close, List.append_assoc]
      exact ih fun r => (h r).closed

/-- Every opening is followed by a closing before the next opening. -/
def Paired (moves : List Move) : Prop :=
  ∀ before rest, moves = before ++ .openUp :: rest → ∃ later, rest = .close :: later

theorem Paired.tail {m : Move} {moves : List Move} (h : Paired (m :: moves)) : Paired moves :=
  fun before rest he => h (m :: before) rest (by rw [he]; rfl)

theorem Paired.exists_close {moves : List Move} (h : Paired (.openUp :: moves)) :
    ∃ later, moves = .close :: later ∧ Paired later := by
  obtain ⟨later, rfl⟩ := h [] moves rfl
  exact ⟨later, rfl, h.tail.tail⟩

/-- After paired moves nothing is held, and every acquired resource was released. -/
theorem accounts_after {w : World} {past made : Log} (o : LaunchOptions) {moves : List Move} (hm : Paired moves)
    (h : ∀ r, Accounts w past r .nothing made) :
    ∃ made', (launching o).after w ⟨.nothing, past ++ made⟩ moves = ⟨.nothing, past ++ made'⟩ ∧
      ∀ r, Accounts w past r .nothing made' := by
  -- an opening is taken together with the closing after it, so that nothing is held before each step
  match moves, hm with
  | [], _ => exact ⟨made, rfl, h⟩
  | .close :: moves, hm =>
    rw [after_cons_close, List.append_assoc]
    exact accounts_after o hm.tail fun r => (h r).closed
  | .openUp :: moves, hm =>
    obtain ⟨later, rfl, hl⟩ := hm.exists_close
    obtain ⟨n, hn, he⟩ := after_cons_openUp w o .nothing (past ++ made) (.close :: later)
    rw [he, after_cons_close, List.append_assoc, List.append_assoc]
    exact accounts_after o hl fun r => by simpa using ((h r).opened hn).closed (o := o)
termination_by moves.length

/-- For any sequence of openings and closings of one session, each browser and each driver is released at most once,
and only if it was acquired. A closing clears what is held before its calls, so a second one succeeds without any
call. It makes every releasing call even if one fails, and it fails if and only if one of them does, with the
failure of the driver if both do. If every opening is followed by a closing, everything acquired is released exactly
once. -/
theorem moves_end_what_has_begun (w : World) (o : LaunchOptions) (past : Log) (moves : List Move) :
    let s := launching o
    let d := s.after w ⟨.nothing, past⟩ moves
    let browserCall := d.held.browser.map Call.closeBrowser
    let driverCall := d.held.driver.map Call.stop
    let closed := (s.close w).run d
    ∃ made, d.log = past ++ made ∧
      (∀ (r : Resource) p, List.count (r.ending p) made ≤ 1 ∧
        (r.ending p ∈ made → past.length ≤ p ∧ w.Began d.log r.beginning p)) ∧
      closed = (endAll w d.held).run ⟨.nothing, d.log⟩ ∧
      closed.2 = ⟨.nothing, d.log ++ (browserCall.toList ++ driverCall.toList)⟩ ∧
      (s.close w).run closed.2 = (.ok (), closed.2) ∧
      (∀ f, closed.1 = .error f ↔
        (∃ c ∈ driverCall, w.respond (d.log ++ browserCall.toList) c = .error f) ∨
        (∀ c ∈ driverCall, w.Succeeds (d.log ++ browserCall.toList) c) ∧
          ∃ c ∈ browserCall, w.respond d.log c = .error f) ∧
      (Paired moves → ∀ (r : Resource) p, past.length ≤ p → w.Began d.log r.beginning p →
        List.count (r.ending p) made = 1) := by
  intro s d browserCall driverCall closed
  have hc : closed.2 = ⟨.nothing, d.log ++ s.closing d.held⟩ := after_close w o d
  obtain ⟨held, made, hd, ht⟩ := tracks_after o moves (tracks_nothing w past)
  rw [List.append_nil] at hd
  have hl : d.log = past ++ made := congrArg Desk.log hd
  refine ⟨made, hl, fun r p => ⟨(ht r).once p, fun hp => hl ▸ (ht r).ended p hp⟩, run_close_eq w o d, hc,
    hc ▸ run_close_of_nothing w o _, close_eq_error_iff w o d, fun hm r p hp hb => ?_⟩
  have hnone : ∀ r, Accounts w past r .nothing [] := fun r p hp hb => by
    have := hb.lt_length
    simp at this
    omega
  obtain ⟨made', hd', ha⟩ := accounts_after o hm hnone
  rw [List.append_nil] at hd'
  have he : d.held = .nothing := congrArg Desk.held hd'
  obtain rfl : made = made' := List.append_cancel_left (hl.symm.trans (congrArg Desk.log hd'))
  have hin : r.ending p ∈ made := (ha r p hp (hl ▸ hb)).resolve_left (by simp [Held.position?_nothing])
  exact Nat.le_antisymm ((ht r).once p) (List.count_pos_iff.mpr hin)

end Session

end BrowserPilot.Browser
