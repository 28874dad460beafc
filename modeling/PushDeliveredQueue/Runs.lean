import Mathlib.Algebra.Ring.Nat
import Mathlib.Data.List.Basic
import Mathlib.Data.List.Infix
import Mathlib.Data.Nat.Notation

/-!
# Runs of a machine that emits events

The general part of the development: a machine is a partial transition function
`step : S → A → Option (S × List E)`, which from a state and an action computes the
next state and the events the outside world sees, or `none` where the action is not
possible. Every choice the environment makes is in the action, so the function is
deterministic and runs are lists of transitions.

Nothing here mentions a queue. The file gives

* `Transitions.Run`, the finite runs, with their splitting and gluing lemmas;
* `Transitions.Run.invariant`, the induction every safety result is an instance of;
* `Transitions.Run.always_iff`, the rule for **conditional** invariants: a property
  that holds of every state a run visits *exactly when* every transition of the run
  meets a side condition;
* `Transitions.Run.budget` and `Transitions.Run.amortized`, the rules for bounds on the number of
  events of a run, and on what its transitions cost;
* `Transitions.Run.last_change`, the rule for what is read of a state and seldom written;
* `Transitions.Path` and `Transitions.Run.path`, the rule for simulations;
* `Transitions.Run.project` and `Transitions.Run.deterministic`, the rules for statements
  about two runs;
* `Transitions.Run.embed` and `Transitions.Run.simulate`, the rules for machines that are part of
  larger ones, and for machines that do what another one does;
* `Transitions.exec`, which computes a run from its actions.
-/

namespace Transitions

variable {S A E : Type*}

/-- One transition as a run records it: the state it left, the action, the events it
emitted and the state it entered. -/
structure Transition (S A E : Type*) where
  /-- The state the transition left. -/
  pre : S
  /-- The action taken. -/
  act : A
  /-- The events emitted, in order. -/
  out : List E
  /-- The state entered. -/
  post : S

/-- The events of a run, in order. -/
def events (tr : List (Transition S A E)) : List E := tr.flatMap (·.out)

@[simp] theorem events_nil : events ([] : List (Transition S A E)) = [] := rfl

@[simp] theorem events_append (tr tr' : List (Transition S A E)) :
    events (tr ++ tr') = events tr ++ events tr' := by
  simp [events]

@[simp] theorem events_cons (t : Transition S A E) (tr : List (Transition S A E)) :
    events (t :: tr) = t.out ++ events tr := by
  simp [events]

theorem mem_events {tr : List (Transition S A E)} {e : E} :
    e ∈ events tr ↔ ∃ t ∈ tr, e ∈ t.out := by
  simp [events]

/-- Costs of one for each transition of a kind add up to the number of them. -/
theorem sum_map_indicator (p : Transition S A E → Bool) (tr : List (Transition S A E)) :
    (tr.map fun t => if p t then 1 else 0).sum = tr.countP p := by
  induction tr with
  | nil => rfl
  | cons t tr ih =>
    rw [List.map_cons, List.sum_cons, ih, List.countP_cons, Nat.add_comm]

/-- **The finite runs of a machine** from `s₀`: the list of the transitions taken, and
the state they lead to. -/
inductive Run (step : S → A → Option (S × List E)) (s₀ : S) :
    List (Transition S A E) → S → Prop
  /-- The empty run. -/
  | nil : Run step s₀ [] s₀
  /-- A run followed by one more transition. -/
  | snoc {tr s a out s'} : Run step s₀ tr s → step s a = some (s', out) →
      Run step s₀ (tr ++ [⟨s, a, out, s'⟩]) s'

variable {step : S → A → Option (S × List E)} {s₀ s s' : S}
  {tr tr' : List (Transition S A E)}

namespace Run

/-! ### Gluing and splitting -/

theorem eq_of_nil (h : Run step s₀ [] s) : s = s₀ := by
  generalize htr : ([] : List (Transition S A E)) = l at h
  cases h with
  | nil => rfl
  | snoc _ _ => simp at htr

/-- Reading the last transition of a run back. -/
theorem of_snoc {t : Transition S A E} (h : Run step s₀ (tr ++ [t]) s) :
    Run step s₀ tr t.pre ∧ step t.pre t.act = some (t.post, t.out) ∧ s = t.post := by
  generalize htr : tr ++ [t] = l at h
  cases h with
  | nil => simp at htr
  | snoc hrun hstep =>
    obtain ⟨rfl, ht⟩ := List.append_inj' htr rfl
    obtain rfl : t = _ := by simpa using ht
    exact ⟨hrun, hstep, rfl⟩

theorem single {a : A} {out : List E} (h : step s a = some (s', out)) :
    Run step s [⟨s, a, out, s'⟩] s' :=
  by simpa using Run.snoc Run.nil h

/-- A run from the state another run reaches continues it. -/
theorem append (h : Run step s₀ tr s) (h' : Run step s tr' s') :
    Run step s₀ (tr ++ tr') s' := by
  induction h' with
  | nil => simpa using h
  | snoc _ hstep ih => simpa [← List.append_assoc] using ih.snoc hstep

/-- A run passes through a state wherever its list of transitions is cut. -/
theorem split (h : Run step s₀ (tr ++ tr') s') :
    ∃ s, Run step s₀ tr s ∧ Run step s tr' s' := by
  induction tr' using List.reverseRecOn generalizing s' with
  | nil => exact ⟨s', by simpa using h, Run.nil⟩
  | append_singleton tr' t ih =>
    rw [← List.append_assoc] at h
    obtain ⟨hrun, hstep, rfl⟩ := h.of_snoc
    obtain ⟨s, h1, h2⟩ := ih hrun
    exact ⟨s, h1, h2.snoc hstep⟩

/-- A run cut at one of its transitions. -/
theorem cut {t : Transition S A E} (h : Run step s₀ (tr ++ t :: tr') s') :
    Run step s₀ tr t.pre ∧ step t.pre t.act = some (t.post, t.out) ∧
      Run step t.post tr' s' := by
  rw [List.append_cons] at h
  obtain ⟨s, h1, h2⟩ := h.split
  obtain ⟨hrun, hstep, rfl⟩ := h1.of_snoc
  exact ⟨hrun, hstep, h2⟩

/-- The state a run reaches is determined by its transitions. -/
theorem functional (h : Run step s₀ tr s) (h' : Run step s₀ tr s') : s = s' := by
  cases h with
  | nil => exact h'.eq_of_nil.symm
  | snoc _ _ => exact h'.of_snoc.2.2.symm

/-- Every transition of a run is a step of the machine, taken after a shorter run. -/
theorem of_mem {t : Transition S A E} (h : Run step s₀ tr s) (ht : t ∈ tr) :
    ∃ pre post, tr = pre ++ t :: post ∧ Run step s₀ pre t.pre ∧
      step t.pre t.act = some (t.post, t.out) ∧ Run step t.post post s := by
  obtain ⟨pre, post, rfl⟩ := List.append_of_mem ht
  exact ⟨pre, post, rfl, h.cut⟩

/-! ### Invariants -/

/-- **The invariant rule.** What holds of the empty run and is kept by every transition
holds of every run. The property may speak of the whole history, and the step case may
use that the history is a run. -/
theorem invariant {I : List (Transition S A E) → S → Prop} (h0 : I [] s₀)
    (hstep : ∀ tr s a out s', Run step s₀ tr s → I tr s → step s a = some (s', out) →
      I (tr ++ [⟨s, a, out, s'⟩]) s')
    (h : Run step s₀ tr s) : I tr s := by
  induction h with
  | nil => exact h0
  | snoc hrun hs ih => exact hstep _ _ _ _ _ hrun ih hs

/-- The invariant rule for properties of the state alone. -/
theorem stateInvariant {I : S → Prop} (h0 : I s₀)
    (hstep : ∀ s a out s', I s → step s a = some (s', out) → I s')
    (h : Run step s₀ tr s) : I s :=
  h.invariant (I := fun _ s => I s) h0 fun _ s a out s' _ hi hs => hstep s a out s' hi hs

/-- The invariant rule for runs whose every transition meets a condition. -/
theorem invariantOn {I : List (Transition S A E) → S → Prop}
    {ok : Transition S A E → Prop} (h0 : I [] s₀)
    (hstep : ∀ tr s a out s', Run step s₀ tr s → I tr s → step s a = some (s', out) →
      ok ⟨s, a, out, s'⟩ → I (tr ++ [⟨s, a, out, s'⟩]) s')
    (h : Run step s₀ tr s) (hok : ∀ t ∈ tr, ok t) : I tr s := by
  refine h.invariant (I := fun tr s => (∀ t ∈ tr, ok t) → I tr s) (fun _ => h0) ?_ hok
  intro tr s a out s' hrun hi hs hok
  exact hstep tr s a out s' hrun (hi fun t ht => hok t (List.mem_append_left _ ht)) hs
    (hok _ (by simp))

/-- **The budget rule.** If every transition from a good state pays for the events it emits, so
many of them as satisfy a predicate, out of a potential, and enters a good state, a run from a
good state emits no more of them than the potential it starts with. -/
theorem budget {I : S → Prop} (P : E → Bool) (potential : S → ℕ)
    (hstep : ∀ s a out s', I s → step s a = some (s', out) →
      I s' ∧ out.countP P + potential s' ≤ potential s)
    (h0 : I s₀) (h : Run step s₀ tr s) :
    I s ∧ (events tr).countP P + potential s ≤ potential s₀ := by
  induction h with
  | nil => exact ⟨h0, by simp⟩
  | @snoc tr s a out s' _ hs ih =>
    obtain ⟨hi, hpaid⟩ := ih
    obtain ⟨hi', hpaid'⟩ := hstep s a out s' hi hs
    refine ⟨hi', ?_⟩
    have hcount : (events (tr ++ [⟨s, a, out, s'⟩])).countP P =
        (events tr).countP P + out.countP P := by
      simp [List.countP_append]
    omega

/-- **The amortization rule.** Let every transition of a kind pay for its cost out of a potential,
which it may also raise by a credit of its own. A run of such transitions costs no more than the
potential it starts with and the credits given on the way. -/
theorem amortized {I : S → Prop} {G : Transition S A E → Prop} (potential : S → ℕ)
    (cost credit : Transition S A E → ℕ)
    (hstep : ∀ s a out s', I s → step s a = some (s', out) → G ⟨s, a, out, s'⟩ →
      I s' ∧ cost ⟨s, a, out, s'⟩ + potential s' ≤ potential s + credit ⟨s, a, out, s'⟩)
    (h0 : I s₀) (h : Run step s₀ tr s) (hG : ∀ t ∈ tr, G t) :
    I s ∧ (tr.map cost).sum + potential s ≤ potential s₀ + (tr.map credit).sum := by
  induction h with
  | nil => exact ⟨h0, by simp⟩
  | @snoc tr s a out s' _ hs ih =>
    obtain ⟨hi, hpaid⟩ := ih fun t ht => hG t (List.mem_append_left _ ht)
    obtain ⟨hi', hpaid'⟩ := hstep s a out s' hi hs (hG _ (by simp))
    refine ⟨hi', ?_⟩
    rw [List.map_append, List.map_append, List.sum_append, List.sum_append, List.map_singleton,
      List.map_singleton, List.sum_singleton, List.sum_singleton]
    omega

/-- **The rule of the last change.** Let every transition that is not of a certain kind leave a
reading of the state as it is. After a run the reading is the one there was at first, if no
transition of it was of that kind, and else the one that the last such transition has left. -/
theorem last_change {V : Type*} (read : S → V) {W : Transition S A E → Prop}
    (hkeep : ∀ tr t, Run step s₀ tr t.pre → step t.pre t.act = some (t.post, t.out) → ¬ W t →
      read t.post = read t.pre)
    (h : Run step s₀ tr s) :
    (read s = read s₀ ∧ ∀ t ∈ tr, ¬ W t) ∨
      ∃ pre w mid, tr = pre ++ w :: mid ∧ W w ∧ (∀ t ∈ mid, ¬ W t) ∧ read s = read w.post := by
  induction h with
  | nil => exact Or.inl ⟨rfl, by simp⟩
  | @snoc tr s a out s' hrun hs ih =>
    by_cases hw : W ⟨s, a, out, s'⟩
    · exact Or.inr ⟨tr, ⟨s, a, out, s'⟩, [], rfl, hw, by simp, rfl⟩
    have hsame : read s' = read s := hkeep tr ⟨s, a, out, s'⟩ hrun hs hw
    have hsnoc {l : List (Transition S A E)} (hl : ∀ t ∈ l, ¬ W t) :
        ∀ t ∈ l ++ [⟨s, a, out, s'⟩], ¬ W t := by
      intro t ht
      rcases List.mem_append.mp ht with ht | ht
      · exact hl t ht
      · exact List.mem_singleton.mp ht ▸ hw
    rcases ih with ⟨hfirst, hnone⟩ | ⟨pre, w, mid, rfl, hW, hmid, hlast⟩
    · exact Or.inl ⟨hsame.trans hfirst, hsnoc hnone⟩
    · exact Or.inr ⟨pre, w, mid ++ [⟨s, a, out, s'⟩], by simp, hW, hsnoc hmid,
        hsame.trans hlast⟩

/-- A property holds **throughout** a run when it holds of every initial stretch of it and
of the state that stretch reaches. -/
def Always (step : S → A → Option (S × List E)) (s₀ : S)
    (P : List (Transition S A E) → S → Prop) (tr : List (Transition S A E)) : Prop :=
  ∀ pre s, pre <+: tr → Run step s₀ pre s → P pre s

theorem always_nil {P : List (Transition S A E) → S → Prop} :
    Always step s₀ P [] ↔ P [] s₀ := by
  constructor
  · intro h
    exact h [] s₀ (List.prefix_refl _) Run.nil
  · intro h pre s hpre hrun
    obtain rfl := List.prefix_nil.mp hpre
    rwa [hrun.eq_of_nil]

theorem always_snoc {P : List (Transition S A E) → S → Prop} {t : Transition S A E}
    (h : Run step s₀ (tr ++ [t]) t.post) :
    Always step s₀ P (tr ++ [t]) ↔ Always step s₀ P tr ∧ P (tr ++ [t]) t.post := by
  constructor
  · intro ha
    exact ⟨fun pre s hpre hrun => ha pre s (hpre.trans (List.prefix_append _ _)) hrun,
      ha _ _ (List.prefix_refl _) h⟩
  · rintro ⟨ha, hlast⟩ pre s hpre hrun
    rcases List.prefix_concat_iff.mp hpre with rfl | hpre
    · rwa [hrun.functional h]
    · exact ha pre s hpre hrun

/-- **The rule for conditional invariants.** Let `G` be kept by every transition that
meets the condition `C`, and imply the property `P`; and let every transition from a good
state that breaks `C` enter a state where `P` fails. Then `P` holds throughout a run
exactly when every transition of the run, in the light of its history, meets `C`. -/
theorem always_iff {P G : List (Transition S A E) → S → Prop}
    {C : List (Transition S A E) → Transition S A E → Prop} (h0 : G [] s₀)
    (hP : ∀ tr s, Run step s₀ tr s → G tr s → P tr s)
    (hgood : ∀ tr t, Run step s₀ tr t.pre → G tr t.pre →
      step t.pre t.act = some (t.post, t.out) → C tr t → G (tr ++ [t]) t.post)
    (hbad : ∀ tr t, Run step s₀ tr t.pre → G tr t.pre →
      step t.pre t.act = some (t.post, t.out) → P (tr ++ [t]) t.post → C tr t)
    (h : Run step s₀ tr s) :
    Always step s₀ P tr ↔ ∀ pre t, pre ++ [t] <+: tr → C pre t := by
  -- the two sides are proved together with goodness, by induction on the run
  suffices hmain : (Always step s₀ P tr ↔ ∀ pre t, pre ++ [t] <+: tr → C pre t) ∧
      (Always step s₀ P tr → G tr s) from hmain.1
  induction h with
  | nil =>
    refine ⟨⟨fun _ pre t hpre => ?_, fun _ => ?_⟩, fun _ => h0⟩
    · simp at hpre
    · exact always_nil.mpr (hP _ _ Run.nil h0)
  | @snoc tr s a out s' hrun hstep ih =>
    obtain ⟨hiff, hgd⟩ := ih
    have hfull := hrun.snoc hstep
    have hsnoc := always_snoc (P := P) (t := ⟨s, a, out, s'⟩) hfull
    refine ⟨⟨fun ha pre t hpre => ?_, fun hok => ?_⟩, fun ha => ?_⟩
    · obtain ⟨hal, hlast⟩ := hsnoc.mp ha
      rcases List.prefix_concat_iff.mp hpre with heq | hpre
      · obtain ⟨rfl, ht⟩ := List.append_inj' heq rfl
        obtain rfl : t = _ := by simpa using ht
        exact hbad _ _ hrun (hgd hal) hstep hlast
      · exact hiff.mp hal pre t hpre
    · have hal := hiff.mpr fun pre t hpre => hok pre t (hpre.trans (List.prefix_append _ _))
      exact hsnoc.mpr ⟨hal, hP _ _ hfull
        (hgood tr ⟨s, a, out, s'⟩ hrun (hgd hal) hstep (hok _ _ (List.prefix_refl _)))⟩
    · obtain ⟨hal, hlast⟩ := hsnoc.mp ha
      exact hgood tr ⟨s, a, out, s'⟩ hrun (hgd hal) hstep (hbad _ _ hrun (hgd hal) hstep hlast)

end Run

/-! ### Simulations -/

variable {T L : Type*}

/-- The paths of a labelled relation. -/
inductive Path (R : T → L → T → Prop) : T → List L → T → Prop
  /-- The empty path. -/
  | nil (x : T) : Path R x [] x
  /-- One step, then a path. -/
  | cons {x y z l ls} : R x l y → Path R y ls z → Path R x (l :: ls) z

theorem Path.append {R : T → L → T → Prop} {x y z : T} {ls ls' : List L}
    (h : Path R x ls y) (h' : Path R y ls' z) : Path R x (ls ++ ls') z := by
  induction h with
  | nil => simpa using h'
  | cons hr _ ih => exact Path.cons hr (ih h')

/-- **The simulation rule.** If every transition of a run is, through the abstraction
`abs`, a step of the abstract relation under its label, the run is a path of it. -/
theorem Run.path {R : T → L → T → Prop} (abs : S → T) (label : Transition S A E → L)
    (h : Run step s₀ tr s) (hsim : ∀ t ∈ tr, R (abs t.pre) (label t) (abs t.post)) :
    Path R (abs s₀) (tr.map label) (abs s) := by
  induction h with
  | nil => exact Path.nil _
  | @snoc tr s a out s' _ _ ih =>
    have hlast := hsim ⟨s, a, out, s'⟩ (by simp)
    have hpath := ih fun t ht => hsim t (List.mem_append_left _ ht)
    simpa using hpath.append (Path.cons hlast (Path.nil _))

/-! ### Projections -/

/-- A transition, its two states mapped. -/
def Transition.map (f : S → T) (t : Transition S A E) : Transition T A E :=
  ⟨f t.pre, t.act, t.out, f t.post⟩

/-- **The projection rule.** Let `vis` single out actions of a machine, and `proj` map its
states to those of another one. If an invisible action does not show in the projection, and a
visible one is possible there with the same events, every run projects to a run of the other
machine with the visible actions of the first one. -/
theorem Run.project {step' : T → A → Option (T × List E)} (vis : A → Bool) (proj : S → T)
    (hvis : ∀ s a s' out, step s a = some (s', out) → vis a = true →
      step' (proj s) a = some (proj s', out))
    (hinv : ∀ s a s' out, step s a = some (s', out) → vis a = false → proj s' = proj s)
    (h : Run step s₀ tr s) :
    Run step' (proj s₀) ((tr.filter fun t => vis t.act).map (.map proj)) (proj s) := by
  induction h with
  | nil => exact Run.nil
  | @snoc tr s a out s' _ hstep ih =>
    cases ha : vis a with
    | true => simpa [ha, Transition.map] using ih.snoc (hvis s a s' out hstep ha)
    | false => simpa [ha, hinv s a s' out hstep ha] using ih

/-- The actions of a run determine it. -/
theorem Run.deterministic (h : Run step s₀ tr s) (h' : Run step s₀ tr' s')
    (hacts : tr.map (·.act) = tr'.map (·.act)) : tr = tr' ∧ s = s' := by
  induction h generalizing tr' s' with
  | nil =>
    obtain rfl := List.map_eq_nil_iff.mp hacts.symm
    exact ⟨rfl, h'.eq_of_nil.symm⟩
  | @snoc tr s a out s₁ _ hstep ih =>
    cases h' with
    | nil => simp at hacts
    | @snoc tr' s₂ a' out' _ hrun' hstep' =>
      obtain ⟨hbefore, rfl⟩ : tr.map (·.act) = tr'.map (·.act) ∧ a = a' := by simpa using hacts
      obtain ⟨rfl, rfl⟩ := ih hrun' hbefore
      obtain ⟨rfl, rfl⟩ : s₁ = s' ∧ out = out' := by simpa [hstep] using hstep'
      exact ⟨rfl, rfl⟩

/-! ### Embeddings -/

variable {B : Type*}

/-- A transition, its two states and its action mapped. -/
def Transition.embed (f : S → T) (g : A → B) (t : Transition S A E) : Transition T B E :=
  ⟨f t.pre, g t.act, t.out, f t.post⟩

@[simp] theorem events_map_embed (f : S → T) (g : A → B) (tr : List (Transition S A E)) :
    events (tr.map (.embed f g)) = events tr := by
  simp only [events, List.flatMap_map, Transition.embed]

/-- **The embedding rule.** Let the states and the actions of a machine be mapped to those of
another one, which does what the first one does. Then every run is mapped to a run, with the
same events. -/
theorem Run.embed {step' : T → B → Option (T × List E)} (f : S → T) (g : A → B)
    (hsim : ∀ s a s' out, step s a = some (s', out) → step' (f s) (g a) = some (f s', out))
    (h : Run step s₀ tr s) : Run step' (f s₀) (tr.map (.embed f g)) (f s) := by
  induction h with
  | nil => exact Run.nil
  | @snoc tr s a out s' _ hstep ih =>
    simpa [Transition.embed] using ih.snoc (hsim s a s' out hstep)

/-! ### Simulations -/

/-- What a trace looks like to another machine: the transitions that mean an action of it. -/
def simulated (abs : S → T) (act : S → A → Option B) (tr : List (Transition S A E)) :
    List (Transition T B E) :=
  tr.filterMap fun t => (act t.pre t.act).map fun b => ⟨abs t.pre, b, t.out, abs t.post⟩

/-- **The simulation rule.** Let every transition of a machine either mean an action of another
one, possible there with the same events, or emit nothing and not show there. Then every run is a
run of the other machine, with the same events. -/
theorem Run.simulate {step' : T → B → Option (T × List E)} (abs : S → T) (act : S → A → Option B)
    (hmeans : ∀ s a b s' out, step s a = some (s', out) → act s a = some b →
      step' (abs s) b = some (abs s', out))
    (hsilent : ∀ s a s' out, step s a = some (s', out) → act s a = none →
      abs s' = abs s ∧ out = [])
    (h : Run step s₀ tr s) :
    Run step' (abs s₀) (simulated abs act tr) (abs s) ∧
      events (simulated abs act tr) = events tr := by
  induction h with
  | nil => exact ⟨Run.nil, rfl⟩
  | @snoc tr s a out s' _ hstep ih =>
    obtain ⟨hrun, hevents⟩ := ih
    rw [simulated, List.filterMap_append, ← simulated]
    cases ha : act s a with
    | none =>
      obtain ⟨habs, rfl⟩ := hsilent s a s' out hstep ha
      simpa [ha, habs, hevents] using hrun
    | some b =>
      have hnext := hrun.snoc (hmeans s a b s' out hstep ha)
      exact ⟨by simpa [ha] using hnext, by simp [ha, hevents]⟩

/-- Every transition of the other machine is the meaning of one. -/
theorem mem_simulated {abs : S → T} {act : S → A → Option B} {u : Transition T B E} :
    u ∈ simulated abs act tr ↔
      ∃ t ∈ tr, ∃ b, act t.pre t.act = some b ∧ u = ⟨abs t.pre, b, t.out, abs t.post⟩ := by
  simp only [simulated, List.mem_filterMap, Option.map_eq_some_iff, eq_comm (a := u)]

/-! ### Computing runs -/

/-- The run a machine makes when it is given its actions one after the other, or `none` if
one of them is not possible. -/
def exec (step : S → A → Option (S × List E)) : S → List A → Option (List (Transition S A E) × S)
  | s, [] => some ([], s)
  | s, a :: as =>
    match step s a with
    | none => none
    | some (s', out) =>
      match exec step s' as with
      | none => none
      | some (tr, s'') => some (⟨s, a, out, s'⟩ :: tr, s'')

theorem run_of_exec {as : List A} (h : exec step s as = some (tr, s')) : Run step s tr s' := by
  induction as generalizing s tr with
  | nil =>
    obtain ⟨rfl, rfl⟩ : [] = tr ∧ s = s' := by simpa [exec] using h
    exact Run.nil
  | cons a as ih =>
    simp only [exec] at h
    split at h
    · simp at h
    · rename_i s₁ out hstep
      split at h
      · simp at h
      · rename_i tr₁ s₂ hrest
        obtain ⟨rfl, rfl⟩ : ⟨s, a, out, s₁⟩ :: tr₁ = tr ∧ s₂ = s' := by simpa using h
        exact (Run.single hstep).append (ih hrest)

/-- The transitions made on a list of actions that can all be taken. -/
def traceOf (step : S → A → Option (S × List E)) (s : S) (as : List A) :
    List (Transition S A E) :=
  ((exec step s as).getD ([], s)).1

/-- The state reached on a list of actions that can all be taken. -/
def stateOf (step : S → A → Option (S × List E)) (s : S) (as : List A) : S :=
  ((exec step s as).getD ([], s)).2

/-- A list of actions that can all be taken makes a run. -/
theorem run_exec (as : List A) (h : (exec step s as).isSome) :
    Run step s (traceOf step s as) (stateOf step s as) := by
  obtain ⟨⟨tr, s'⟩, hexec⟩ := Option.isSome_iff_exists.mp h
  rw [traceOf, stateOf, hexec]
  exact run_of_exec hexec

end Transitions
