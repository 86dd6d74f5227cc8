/-!
# Runs of a step function

A system is a function `step : σ → ε → Option σ`: the event `e` takes `s` to
`s'` when `step s e = some s'`, and cannot happen in `s` when `step s e` is
`none`. `exec step s es` runs the events `es` in order.

`Along step P s es` says that each event of the run satisfies `P` in the state
it happens in; `Throughout step Q s es` says that every state of the run
satisfies `Q`. `exec_inv` is the induction behind every invariant of a run and
`exec_inv_along` the one for runs whose events all meet a condition.
-/

namespace Lib

variable {σ ε : Type} {step : σ → ε → Option σ}

/-- The state after the events `es`, if all of them can happen. -/
def exec (step : σ → ε → Option σ) : σ → List ε → Option σ
  | s, [] => some s
  | s, e :: es => (step s e).bind (exec step · es)

/-- Each event of the run satisfies `P` in the state it happens in. -/
def Along (step : σ → ε → Option σ) (P : σ → ε → Prop) : σ → List ε → Prop
  | _, [] => True
  | s, e :: es => P s e ∧ ∀ m, step s e = some m → Along step P m es

/-- Every state of the run satisfies `Q`, the first and the last included. -/
def Throughout (step : σ → ε → Option σ) (Q : σ → Prop) : σ → List ε → Prop
  | s, [] => Q s
  | s, e :: es => Q s ∧ ∀ m, step s e = some m → Throughout step Q m es

/-- What holds throughout holds at the start. -/
theorem Throughout.head {Q : σ → Prop} {s : σ} : ∀ {es : List ε}, Throughout step Q s es → Q s
  | [], h => h
  | _ :: _, h => h.1

instance Along.decidable {P : σ → ε → Prop} [∀ s e, Decidable (P s e)] :
    ∀ (s : σ) (es : List ε), Decidable (Along step P s es)
  | _, [] => .isTrue trivial
  | s, e :: es =>
    match h : step s e with
    | none => decidable_of_iff (P s e) (by simp [Along, h])
    | some m =>
      have := Along.decidable (P := P) m es
      decidable_of_iff (P s e ∧ Along step P m es) (by simp [Along, h])

instance Throughout.decidable {Q : σ → Prop} [DecidablePred Q] :
    ∀ (s : σ) (es : List ε), Decidable (Throughout step Q s es)
  | s, [] => inferInstanceAs (Decidable (Q s))
  | s, e :: es =>
    match h : step s e with
    | none => decidable_of_iff (Q s) (by simp [Throughout, h])
    | some m =>
      have := Throughout.decidable (Q := Q) m es
      decidable_of_iff (Q s ∧ Throughout step Q m es) (by simp [Throughout, h])

@[simp] theorem exec_nil (s : σ) : exec step s [] = some s := rfl

theorem exec_cons {s s' : σ} {e : ε} {es : List ε} :
    exec step s (e :: es) = some s' ↔ ∃ m, step s e = some m ∧ exec step m es = some s' := by
  simp [exec, Option.bind_eq_some_iff]

theorem exec_append {s s' : σ} {es fs : List ε} :
    exec step s (es ++ fs) = some s' ↔ ∃ m, exec step s es = some m ∧ exec step m fs = some s' := by
  induction es generalizing s with
  | nil => simp
  | cons e es ih =>
    simp only [List.cons_append, exec_cons, ih]
    constructor
    · rintro ⟨a, ha, b, hb, hc⟩; exact ⟨b, ⟨a, ha, hb⟩, hc⟩
    · rintro ⟨b, ⟨a, ha, hb⟩, hc⟩; exact ⟨a, ha, b, hb, hc⟩

/-- A run of one event is a step. -/
theorem exec_single {s s' : σ} {e : ε} : exec step s [e] = some s' ↔ step s e = some s' := by
  simp [exec_cons]

theorem exec_snoc {s s' : σ} {e : ε} {es : List ε} :
    exec step s (es ++ [e]) = some s' ↔ ∃ m, exec step s es = some m ∧ step m e = some s' := by
  simp only [exec_append, exec_single]

theorem Along.and {P Q : σ → ε → Prop} :
    ∀ {s : σ} {es : List ε}, Along step P s es → Along step Q s es →
      Along step (fun s e => P s e ∧ Q s e) s es
  | _, [], _, _ => trivial
  | _, _ :: _, ⟨hp, hps⟩, ⟨hq, hqs⟩ => ⟨⟨hp, hq⟩, fun m hm => (hps m hm).and (hqs m hm)⟩

theorem Along.of_forall {P : σ → ε → Prop} :
    ∀ {s : σ} {es : List ε}, (∀ s, ∀ e ∈ es, P s e) → Along step P s es
  | _, [], _ => trivial
  | s, e :: _, h => ⟨h s e List.mem_cons_self, fun _ _ =>
      of_forall fun s e he => h s e (List.mem_cons_of_mem _ he)⟩

theorem Along.append {P : σ → ε → Prop} {s m : σ} {es fs : List ε} (hm : exec step s es = some m)
    (h : Along step P s (es ++ fs)) : Along step P s es ∧ Along step P m fs := by
  induction es generalizing s with
  | nil => cases hm; exact ⟨trivial, h⟩
  | cons e es ih =>
    obtain ⟨a, ha, hm⟩ := exec_cons.mp hm
    obtain ⟨h1, h2⟩ := ih hm (h.2 a ha)
    refine ⟨⟨h.1, fun b hb => ?_⟩, h2⟩
    rw [ha] at hb; cases hb; exact h1

theorem Throughout.along {Q : σ → Prop} :
    ∀ {s : σ} {es : List ε}, Throughout step Q s es → Along step (fun s _ => Q s) s es
  | _, [], _ => trivial
  | _, _ :: _, ⟨h, hs⟩ => ⟨h, fun m hm => (hs m hm).along⟩

/-- **Invariants under a condition.** What every step whose event meets `P`
keeps, a run whose events all meet `P` keeps. -/
theorem exec_inv_along {I : σ → Prop} {P : σ → ε → Prop}
    (hstep : ∀ s e s', I s → P s e → step s e = some s' → I s') {s s' : σ} {es : List ε} (h0 : I s)
    (hP : Along step P s es) (hrun : exec step s es = some s') : I s' := by
  induction es generalizing s with
  | nil => cases hrun; exact h0
  | cons e es ih =>
    obtain ⟨m, hm, hrun⟩ := exec_cons.mp hrun
    exact ih (hstep s e m h0 hP.1 hm) (hP.2 m hm) hrun

/-- **Invariants.** What every step keeps, every run keeps. -/
theorem exec_inv {I : σ → Prop} (hstep : ∀ s e s', I s → step s e = some s' → I s') {s s' : σ}
    {es : List ε} (h0 : I s) (hrun : exec step s es = some s') : I s' := by
  have hall : Along step (fun _ _ => True) s es := Along.of_forall fun _ _ _ => trivial
  exact exec_inv_along (fun s e s' h _ hs => hstep s e s' h hs) h0 hall hrun

/-- Conditions that agree wherever an invariant holds agree along a run. -/
theorem along_congr {I : σ → Prop} {P Q : σ → ε → Prop}
    (hstep : ∀ s e s', I s → step s e = some s' → I s') (hPQ : ∀ s e, I s → (P s e ↔ Q s e)) {s : σ}
    {es : List ε} (h0 : I s) : Along step P s es ↔ Along step Q s es := by
  induction es generalizing s with
  | nil => exact Iff.rfl
  | cons e es ih =>
    exact and_congr (hPQ s e h0) (forall₂_congr fun m hm => ih (hstep s e m h0 hm))

/-- What an invariant makes of a condition, along a run that meets the condition. -/
theorem Along.mono_inv {I : σ → Prop} {P Q : σ → ε → Prop}
    (hstep : ∀ s e s', I s → P s e → step s e = some s' → I s')
    (hPQ : ∀ s e, I s → P s e → Q s e) {s : σ} {es : List ε} (h0 : I s) (hP : Along step P s es) :
    Along step Q s es := by
  induction es generalizing s with
  | nil => trivial
  | cons e es ih => exact ⟨hPQ s e h0 hP.1, fun m hm => ih (hstep s e m h0 hP.1 hm) (hP.2 m hm)⟩

/-- What no step brings about and a step keeps exactly under `R` holds at the end of
a run if it held before and `R` held all along. -/
theorem exec_iff_along {I X : σ → Prop} {P R : σ → ε → Prop}
    (hstep : ∀ s e s', I s → P s e → step s e = some s' → I s' ∧ (X s' ↔ X s ∧ R s e)) {s s' : σ}
    {es : List ε} (h0 : I s) (hP : Along step P s es) (hrun : exec step s es = some s') :
    X s' ↔ X s ∧ Along step R s es := by
  induction es generalizing s with
  | nil => cases hrun; exact (and_iff_left trivial).symm
  | cons e es ih =>
    obtain ⟨m, hm, hrun⟩ := exec_cons.mp hrun
    obtain ⟨hI, hX⟩ := hstep s e m h0 hP.1 hm
    have hrest : (∀ m', step s e = some m' → Along step R m' es) ↔ Along step R m es :=
      ⟨fun h => h m hm, fun h m' hm' => by rw [hm] at hm'; cases hm'; exact h⟩
    rw [ih hI (hP.2 m hm) hrun, hX, Along, hrest, and_assoc]

/-- What holds in a state and is kept by a step exactly under `P` holds throughout a
run exactly when `P` does along it. -/
theorem throughout_iff_along {I Q : σ → Prop} {P : σ → ε → Prop}
    (hstep : ∀ s e s', I s → step s e = some s' → I s')
    (hQ : ∀ s e s', I s → Q s → step s e = some s' → (Q s' ↔ P s e))
    (hstuck : ∀ s e, step s e = none → P s e) {s : σ} {es : List ε} (h0 : I s) (hq : Q s) :
    Throughout step Q s es ↔ Along step P s es := by
  induction es generalizing s with
  | nil => exact iff_of_true hq trivial
  | cons e es ih =>
    cases hm : step s e with
    | none =>
      have hnone {R : σ → Prop} : ∀ m, step s e = some m → R m := fun m h => by rw [hm] at h; cases h
      exact iff_of_true ⟨hq, hnone⟩ ⟨hstuck s e hm, hnone⟩
    | some m =>
      have hI := hstep s e m h0 hm
      have hQ' := hQ s e m h0 hq hm
      constructor
      · rintro ⟨-, h⟩
        have hth := h m hm
        have hqm : Q m := hth.head
        refine ⟨hQ'.mp hqm, fun m' hm' => ?_⟩
        rw [hm] at hm'; cases hm'
        exact (ih hI hqm).mp hth
      · rintro ⟨hp, h⟩
        refine ⟨hq, fun m' hm' => ?_⟩
        rw [hm] at hm'; cases hm'
        exact (ih hI (hQ'.mpr hp)).mpr (h m hm)

theorem Throughout.mono {Q R : σ → Prop} (hQR : ∀ s, Q s → R s) :
    ∀ {s : σ} {es : List ε}, Throughout step Q s es → Throughout step R s es
  | s, [], h => hQR s h
  | s, _ :: _, ⟨h, hs⟩ => ⟨hQR s h, fun m hm => (hs m hm).mono hQR⟩

/-- What does not hold throughout fails after some of the events. -/
theorem exists_of_not_throughout {Q : σ → Prop} {s : σ} {es : List ε} (h : ¬ Throughout step Q s es) :
    ∃ ds m, ds <+: es ∧ exec step s ds = some m ∧ ¬ Q m := by
  induction es generalizing s with
  | nil => exact ⟨[], s, List.prefix_rfl, rfl, h⟩
  | cons e es ih =>
    by_cases hq : Q s
    · obtain ⟨m, hnot⟩ := Classical.not_forall.mp fun hrest => h ⟨hq, hrest⟩
      obtain ⟨hm, hnot⟩ := Classical.not_imp.mp hnot
      obtain ⟨ds, m', hds, hrun, hm'⟩ := ih hnot
      exact ⟨e :: ds, m', List.cons_prefix_cons.mpr ⟨rfl, hds⟩, exec_cons.mpr ⟨m, hm, hrun⟩, hm'⟩
    · exact ⟨[], s, List.nil_prefix, rfl, hq⟩

/-- A condition that does not hold along a run fails at one of its events. -/
theorem exists_of_not_along {P : σ → ε → Prop} {s : σ} {es : List ε} (h : ¬ Along step P s es) :
    ∃ ds e m, ds ++ [e] <+: es ∧ exec step s ds = some m ∧ ¬ P m e := by
  induction es generalizing s with
  | nil => exact absurd trivial h
  | cons e es ih =>
    by_cases hp : P s e
    · obtain ⟨m, hnot⟩ := Classical.not_forall.mp fun hrest => h ⟨hp, hrest⟩
      obtain ⟨hm, hnot⟩ := Classical.not_imp.mp hnot
      obtain ⟨ds, d, m', hds, hrun, hd⟩ := ih hnot
      exact ⟨e :: ds, d, m', List.cons_prefix_cons.mpr ⟨rfl, hds⟩, exec_cons.mpr ⟨m, hm, hrun⟩, hd⟩
    · exact ⟨[], e, s, List.cons_prefix_cons.mpr ⟨rfl, List.nil_prefix⟩, rfl, hp⟩

/-- **Unwinding.** Let `R` relate the states of two runs. If the events to keep lead from
related states to related states, and the others leave the second run where it is, then
the run without the others goes through and stays related. -/
theorem exec_purge {τ : Type} {step' : τ → ε → Option τ} {keep : ε → Bool} {R : σ → τ → Prop} {es : List ε}
    (hkeep : ∀ s t e s', e ∈ es → keep e = true → R s t → step s e = some s' → ∃ t', step' t e = some t' ∧ R s' t')
    (hdrop : ∀ s t e s', e ∈ es → keep e = false → R s t → step s e = some s' → R s' t) {s s' : σ} {t : τ}
    (hR : R s t) (hrun : exec step s es = some s') : ∃ t', exec step' t (es.filter keep) = some t' ∧ R s' t' := by
  induction es generalizing s t with
  | nil => cases hrun; exact ⟨t, rfl, hR⟩
  | cons e es ih =>
    obtain ⟨m, hm, hrun⟩ := exec_cons.mp hrun
    have ih {t : τ} (hmt : R m t) := ih (fun s t d s' hd => hkeep s t d s' (List.mem_cons_of_mem e hd))
      (fun s t d s' hd => hdrop s t d s' (List.mem_cons_of_mem e hd)) hmt hrun
    cases he : keep e with
    | true =>
      obtain ⟨t', ht', hmt'⟩ := hkeep s t e m List.mem_cons_self he hR hm
      obtain ⟨t'', hrun', hend⟩ := ih hmt'
      rw [List.filter_cons_of_pos he]
      exact ⟨t'', exec_cons.mpr ⟨t', ht', hrun'⟩, hend⟩
    | false =>
      rw [List.filter_cons_of_neg (by simp [he])]
      exact ih (hdrop s t e m List.mem_cons_self he hR hm)

/-- **Simulation.** If every step of one system is a step of the other that keeps `R`,
every run of the one is a run of the other. -/
theorem exec_simulates {τ : Type} {step' : τ → ε → Option τ} {R : σ → τ → Prop} {es : List ε}
    (hstep : ∀ s t e s', R s t → step s e = some s' → ∃ t', step' t e = some t' ∧ R s' t') {s s' : σ} {t : τ}
    (hR : R s t) (hrun : exec step s es = some s') : ∃ t', exec step' t es = some t' ∧ R s' t' := by
  induction es generalizing s t with
  | nil => cases hrun; exact ⟨t, rfl, hR⟩
  | cons e es ih =>
    obtain ⟨m, hm, hrun⟩ := exec_cons.mp hrun
    obtain ⟨t', ht', hmt'⟩ := hstep s t e m hR hm
    obtain ⟨t'', hrun', hend⟩ := ih hmt' hrun
    exact ⟨t'', exec_cons.mpr ⟨t', ht', hrun'⟩, hend⟩

/-- **Work that comes to an end.** If in every state in which `I` holds and `Q` does not
some event leads to less work and keeps `I`, a run of such events leads to `Q` as well. -/
theorem exec_drain {I Q : σ → Prop} {P : ε → Prop} (work : σ → Nat)
    (hstep : ∀ s, I s → ¬ Q s → ∃ e s', P e ∧ step s e = some s' ∧ I s' ∧ work s' < work s) {s : σ} (h : I s) :
    ∃ es s', (∀ e ∈ es, P e) ∧ exec step s es = some s' ∧ I s' ∧ Q s' := by
  induction hn : work s using Nat.strongRecOn generalizing s with
  | _ n ih =>
    subst hn
    by_cases hq : Q s
    · exact ⟨[], s, nofun, rfl, h, hq⟩
    · obtain ⟨e, m, he, hm, hI, hless⟩ := hstep s h hq
      obtain ⟨es, s', hes, hrun, hend⟩ := ih _ hless hI rfl
      exact ⟨e :: es, s', List.forall_mem_cons.mpr ⟨he, hes⟩, exec_cons.mpr ⟨m, hm, hrun⟩, hend⟩

/-- Invariants that mention the events so far: what a step keeps when its event
is added to the past. -/
theorem exec_inv_past {I : List ε → σ → Prop}
    (hstep : ∀ past s e s', I past s → step s e = some s' → I (past ++ [e]) s') {s s' : σ}
    {es : List ε} (h0 : I [] s) (hrun : exec step s es = some s') : I es s' := by
  have go : ∀ (past es : List ε) (s : σ), I past s → exec step s es = some s' → I (past ++ es) s' := by
    intro past es
    induction es generalizing past with
    | nil => intro s h hr; cases hr; simpa using h
    | cons e es ih =>
      intro s h hr
      obtain ⟨m, hm, hr⟩ := exec_cons.mp hr
      simpa using ih (past ++ [e]) m (hstep past s e m h hm) hr
  exact go [] es s h0 hrun

end Lib
