import Mailgrid.Proofs.Unfolding.Step
import Mathlib

/-!
# Limits of runs

A run does all expansions that there are to do, or as many as its limit allows if
these are fewer, and leaves the draft as they left it. `run_within_limit`: a run
that stops can be gone on with, and runs that do so come to what a single run
comes to.
-/

namespace Mailgrid.Unfolder

open Markup (Tag)

variable {u : Unfolder} {d e last : Draft} {n m : Nat} {k : ℕ∞} {limit : Int}

/-- Without a limit a run does `k` expansions, none of which fails. One that never ends does `⊤`. -/
structure Takes (u : Unfolder) (d : Draft) (k : ℕ∞) : Prop where
  steps : ∀ n : Nat, n ≤ k → ∃ e, u.Steps n d e
  ends : ∀ (n : Nat) (e : Draft), k = n → u.Steps n d e → u.pending? e = none

/-- Runs one after the other, each from the draft that the one before left. -/
def runs (u : Unfolder) : List Int → Draft → List Run
  | [], _ => []
  | limit :: limits, d => u.run limit d :: u.runs limits (u.run limit d).draft

-- ---------------------------------------------------------------------------
-- Steps

theorem Steps.unique {e' : Draft} (h : u.Steps n d e) (h' : u.Steps n d e') : e = e' := by
  induction h with
  | refl => cases h'; rfl
  | next selected expanded _ ih =>
    cases h' with
    | next selected' expanded' rest =>
      simp only [selected, Option.some.injEq] at selected'
      subst selected'
      simp only [expanded, Except.ok.injEq] at expanded'
      subst expanded'
      exact ih rest

theorem Steps.split (h : u.Steps (n + m) d last) : ∃ e, u.Steps n d e ∧ u.Steps m e last := by
  induction n generalizing d with
  | zero => exact ⟨d, .refl d, by simpa using h⟩
  | succ n ih =>
    rw [Nat.add_right_comm] at h
    cases h with
    | next selected expanded rest =>
      obtain ⟨e, hfirst, hlast⟩ := ih rest
      exact ⟨e, .next selected expanded hfirst, hlast⟩

theorem takes_of_steps (h : u.Steps n d e) (hn : u.pending? e = none) : u.Takes d n := by
  constructor
  · intro m hm
    obtain ⟨more, rfl⟩ := Nat.exists_eq_add_of_le (Nat.cast_le.mp hm)
    obtain ⟨first, hfirst, -⟩ := h.split
    exact ⟨first, hfirst⟩
  · intro m e' hm h'
    obtain rfl : n = m := by simpa using hm
    rwa [← h.unique h']

theorem Takes.exists_pending (h : u.Takes d k) (hs : u.Steps n d e) (hn : n < k) :
    ∃ p, u.pending? e = some p := by
  obtain ⟨next, hnext⟩ := h.steps (n + 1) (by exact_mod_cast Order.add_one_le_of_lt hn)
  obtain ⟨e', hs', hlast⟩ := hnext.split
  obtain rfl := hs.unique hs'
  cases hlast with
  | next selected => exact ⟨_, selected⟩

theorem Takes.behind {total : Nat} (h : u.Takes d (n + total : Nat)) (hs : u.Steps n d e) :
    u.Takes e total := by
  constructor
  · intro m hm
    obtain ⟨next, hnext⟩ := h.steps (n + m) (by simpa using hm)
    obtain ⟨e', hs', hlast⟩ := hnext.split
    obtain rfl := hs.unique hs'
    exact ⟨next, hlast⟩
  · intro m next hm hnext
    obtain rfl : total = m := by simpa using hm
    exact h.ends _ next rfl (hs.trans hnext)

-- ---------------------------------------------------------------------------
-- One run

theorem runFrom_of_steps (h : u.Steps n d e) (limit : Int) (count left : Nat) :
    (u.runFrom limit count (n + left) d).draft = (u.runFrom limit (count + n) left e).draft ∧
      (u.runFrom limit count (n + left) d).count = (u.runFrom limit (count + n) left e).count ∧
      (u.runFrom limit count (n + left) d).failure =
        (u.runFrom limit (count + n) left e).failure := by
  induction h generalizing count with
  | refl => simp
  | @next n d e last p selected expanded _ ih =>
    obtain ⟨hdraft, hcount, hfailure⟩ := ih (count + 1)
    rw [Nat.add_right_comm, ← Nat.add_assoc, Nat.add_right_comm count]
    rw [runFrom]
    simp [selected, expanded, hdraft, hcount, hfailure]

theorem run_of_steps (h : u.Steps n d e) (hn : u.pending? e = none) (hlimit : n ≤ limit.toNat) :
    (u.run limit d).failure = none ∧ (u.run limit d).count = n ∧ (u.run limit d).draft = e := by
  obtain ⟨left, hleft⟩ := Nat.exists_eq_add_of_le hlimit
  obtain ⟨hdraft, hcount, hfailure⟩ := runFrom_of_steps h limit 0 left
  have hend : u.runFrom limit n left e = ⟨e, n, [endMessage n], none⟩ := by
    unfold runFrom
    simp [hn]
  simp [run, hleft, hdraft, hcount, hfailure, hend]

theorem run_of_steps_to_limit {p : Pending} (h : u.Steps limit.toNat d e)
    (hp : u.pending? e = some p) :
    (u.run limit d).failure = some (.expansionLimit limit p.tag) ∧
      (u.run limit d).count = limit.toNat ∧ (u.run limit d).draft = e := by
  obtain ⟨hdraft, hcount, hfailure⟩ := runFrom_of_steps h limit 0 0
  have hend : u.runFrom limit limit.toNat 0 e =
      ⟨e, limit.toNat, [], some (.expansionLimit limit p.tag)⟩ := by
    unfold runFrom
    simp [hp]
  rw [Nat.add_zero] at hdraft hcount hfailure
  simp [run, hdraft, hcount, hfailure, hend]

theorem Takes.run_of_le (h : u.Takes d k) (hlimit : k ≤ limit.toNat) :
    (u.run limit d).failure = none ∧ (u.run limit d).count = k ∧
      u.Steps (u.run limit d).count d (u.run limit d).draft := by
  obtain ⟨n, rfl⟩ := ENat.ne_top_iff_exists.mp (ne_top_of_le_ne_top (ENat.natCast_ne_top _) hlimit)
  obtain ⟨e, he⟩ := h.steps n le_rfl
  obtain ⟨hfailure, hcount, hdraft⟩ :=
    run_of_steps he (h.ends n e rfl he) (by exact_mod_cast hlimit)
  exact ⟨hfailure, by rw [hcount], by rwa [hcount, hdraft]⟩

/-- A run whose limit allows fewer stops there, and names what is to be expanded next. -/
theorem Takes.run_of_lt (h : u.Takes d k) (hlimit : limit.toNat < k) :
    ∃ p, u.pending? (u.run limit d).draft = some p ∧
      (u.run limit d).failure = some (.expansionLimit limit p.tag) ∧
      (u.run limit d).count = limit.toNat ∧
      u.Steps limit.toNat d (u.run limit d).draft := by
  obtain ⟨e, he⟩ := h.steps limit.toNat hlimit.le
  obtain ⟨p, hp⟩ := h.exists_pending he hlimit
  obtain ⟨hfailure, hcount, hdraft⟩ := run_of_steps_to_limit he hp
  exact ⟨p, by rw [hdraft, hp], hfailure, hcount, by rwa [hdraft]⟩

-- ---------------------------------------------------------------------------
-- Runs in a row

theorem runs_of_not_pending (h : u.pending? d = none) (limits : List Int) :
    ∀ run ∈ u.runs limits d, run = ⟨d, 0, [endMessage 0], none⟩ := by
  induction limits with
  | nil => simp [runs]
  | cons limit limits ih => simpa [runs, run_of_not_pending h] using ih

/-- Limits that allow all expansions together are enough, for a run after runs that stopped. -/
theorem Takes.exists_done {total : Nat} (h : u.Takes d total) (hs : u.Steps total d last)
    {limits : List Int} (hne : limits ≠ []) (hpos : ∀ limit ∈ limits, 0 ≤ limit)
    (hsum : total ≤ limits.sum) :
    ∃ before done after, u.runs limits d = before ++ done :: after ∧
      (∀ run ∈ before, ∃ limit tag, run.failure = some (.expansionLimit limit tag)) ∧
      done.failure = none ∧ done.draft = last ∧
      ((before ++ [done]).map (·.count)).sum = total ∧
      ∀ run ∈ after, run = ⟨last, 0, [endMessage 0], none⟩ := by
  induction limits generalizing d total with
  | nil => exact absurd rfl hne
  | cons limit limits ih =>
    simp only [List.forall_mem_cons, List.sum_cons] at hpos hsum
    by_cases hlimit : total ≤ limit.toNat
    · have hend := h.ends total last rfl hs
      obtain ⟨hfailure, hcount, hdraft⟩ := run_of_steps hs hend hlimit
      refine ⟨[], u.run limit d, u.runs limits last, by simp [runs, hdraft], by simp, hfailure,
        hdraft, by simp [hcount], runs_of_not_pending hend limits⟩
    · obtain ⟨more, rfl⟩ := Nat.exists_eq_add_of_le (Nat.le_of_not_le hlimit)
      have hlt : (limit.toNat : ℕ∞) < (limit.toNat + more : Nat) :=
        Nat.cast_lt.mpr (Nat.lt_of_not_le hlimit)
      obtain ⟨p, -, hfailure, hcount, hfirst⟩ := h.run_of_lt hlt
      obtain ⟨e, hsplit, hmore⟩ := hs.split
      obtain rfl := hfirst.unique hsplit
      have hleft : limits ≠ [] := by
        rintro rfl
        simp at hsum
        omega
      obtain ⟨before, done, after, hruns, hstopped, hdone, hdraft, htotal, hafter⟩ :=
        ih (h.behind hfirst) hmore hleft hpos.2 (by omega)
      refine ⟨u.run limit d :: before, done, after, by simp [runs, hruns], ?_, hdone, hdraft, ?_,
        hafter⟩
      · simp only [List.forall_mem_cons]
        exact ⟨⟨limit, p.tag, hfailure⟩, hstopped⟩
      · simp only [List.cons_append, List.map_cons, List.sum_cons, htotal, hcount]

/-- A run does all expansions, or as many as its limit allows, none below nought, and then names
what is to be expanded next. Runs in a row whose limits allow all of them together come to the end
that a single run comes to: the first that does not stop at its limit is there, and all behind it
find nothing left to do. -/
theorem run_within_limit (h : u.Takes d k) :
    (∀ limit : Int,
      (k ≤ limit.toNat → (u.run limit d).failure = none ∧ (u.run limit d).count = k ∧
        u.Steps (u.run limit d).count d (u.run limit d).draft) ∧
      (limit.toNat < k → ∃ p, u.pending? (u.run limit d).draft = some p ∧
        (u.run limit d).failure = some (.expansionLimit limit p.tag) ∧
        (u.run limit d).count = limit.toNat ∧
        u.Steps limit.toNat d (u.run limit d).draft)) ∧
    ∀ (total : Nat) (last : Draft), k = total → u.Steps total d last →
      ∀ limits : List Int, limits ≠ [] → (∀ limit ∈ limits, 0 ≤ limit) → total ≤ limits.sum →
        ∃ before done after, u.runs limits d = before ++ done :: after ∧
          (∀ run ∈ before, ∃ limit tag, run.failure = some (.expansionLimit limit tag)) ∧
          done.failure = none ∧ done.draft = last ∧
          ((before ++ [done]).map (·.count)).sum = total ∧
          ∀ run ∈ after, run = ⟨last, 0, [endMessage 0], none⟩ := by
  refine ⟨fun limit => ⟨h.run_of_le, h.run_of_lt⟩, ?_⟩
  rintro total last rfl hs limits hne hpos hsum
  exact h.exists_done hs hne hpos hsum

/-- A center in a center, once only these have been changed in place. -/
def nestedCenters (settled : List Nat) : Draft :=
  let inner : Tag := if settled = [] then ⟨"center", [], false⟩ else
    ⟨"center", [("align", .text "center"), ("class", .text "float-center")], false⟩
  ⟨⟨Format.ofEntries .standard [], .empty,
    .element 0 ⟨"center", [], false⟩ (.element 1 inner .nil .nil) .nil, 2⟩, settled⟩

theorem run_within_limit_nestedCenters :
    let u : Unfolder := ⟨⟨.int 12, none, none, some "item"⟩, [("center", .center)]⟩
    u.Takes (nestedCenters []) 2 ∧
      (u.run 1 (nestedCenters [])).failure = some (.expansionLimit 1 "center") ∧
      ∃ before done after, u.runs [0, 1, 0, 1, 7] (nestedCenters []) = before ++ done :: after ∧
        done.failure = none ∧ done.draft = nestedCenters [0, 1] ∧
        ((before ++ [done]).map (·.count)).sum = 2 := by
  intro u
  obtain ⟨p, hp, hexpand⟩ : ∃ p, u.pending? (nestedCenters []) = some p ∧
      u.expand (nestedCenters []) p = .ok (nestedCenters [0]) := ⟨_, rfl, rfl⟩
  obtain ⟨q, hq, htag, hexpand'⟩ : ∃ q, u.pending? (nestedCenters [0]) = some q ∧
      q.tag = "center" ∧ u.expand (nestedCenters [0]) q = .ok (nestedCenters [0, 1]) :=
    ⟨_, rfl, rfl, rfl⟩
  have hfirst : u.Steps 1 (nestedCenters []) (nestedCenters [0]) := .next hp hexpand (.refl _)
  have hsteps : u.Steps 2 (nestedCenters []) (nestedCenters [0, 1]) :=
    .next hp hexpand (.next hq hexpand' (.refl _))
  have htakes : u.Takes (nestedCenters []) 2 := takes_of_steps hsteps rfl
  obtain ⟨hone, hmany⟩ := run_within_limit htakes
  refine ⟨htakes, ?_, ?_⟩
  · obtain ⟨r, hr, hfailure, -, hdone⟩ := (hone 1).2 (by decide)
    rw [hdone.unique hfirst, hq] at hr
    rw [hfailure, ← Option.some.inj hr, htag]
  · obtain ⟨before, done, after, hruns, -, hdone, hdraft, hcount, -⟩ :=
      hmany 2 _ rfl hsteps [0, 1, 0, 1, 7] (by simp) (by simp) (by simp)
    exact ⟨before, done, after, hruns, hdone, hdraft, hcount⟩

end Mailgrid.Unfolder
