import Mathlib.Logic.Relation
import Mathlib.Order.WellFounded

/-! Loops as a step function on an explicit state. The body answers `none` to leave
the loop and `some t` to go round again in state `t`. `run` carries fuel so that it can be
evaluated; fuel never changes a result, it only decides whether one is reached. `Reach` is the
other kind of repetition: the states a labelled step relation leads to. -/

namespace AeEventLoop.WhileLoop

variable {σ : Type*} {step : σ → Option σ}

def run (step : σ → Option σ) : ℕ → σ → Option σ
  | 0, _ => none
  | fuel + 1, s =>
      match step s with
      | none => some s
      | some t => run step fuel t

def Visits (step : σ → Option σ) : σ → σ → Prop :=
  Relation.ReflTransGen fun a b => step a = some b

theorem run_exit {s : σ} (fuel : ℕ) (h : step s = none) : run step (fuel + 1) s = some s := by
  simp only [run, h]

theorem run_next {s t : σ} (fuel : ℕ) (h : step s = some t) :
    run step (fuel + 1) s = run step fuel t := by
  simp only [run, h]

/-- Invariant rule. `C` may be any property of the states met at the loop head. -/
theorem run_invariant (I C : σ → Prop)
    (keep : ∀ a b, I a → C a → step a = some b → I b) {fuel : ℕ} {s t : σ}
    (visited : ∀ u, Visits step s u → C u) (start : I s) (h : run step fuel s = some t) :
    I t ∧ step t = none ∧ Visits step s t := by
  induction fuel generalizing s with
  | zero => cases h
  | succ fuel ih =>
      cases body : step s with
      | none =>
          rw [run_exit fuel body] at h
          obtain rfl := Option.some.inj h
          exact ⟨start, body, .refl⟩
      | some u =>
          rw [run_next fuel body] at h
          have later := ih (fun v hv => visited v (.head body hv))
            (keep s u start (visited s .refl) body) h
          exact ⟨later.1, later.2.1, .head body later.2.2⟩

/-- Along every loop the invariant also holds at each state met on the way. -/
theorem visits_invariant (I C : σ → Prop)
    (keep : ∀ a b, I a → C a → step a = some b → I b) {s t : σ}
    (visited : ∀ u, Visits step s u → C u) (start : I s) (h : Visits step s t) : I t := by
  induction h with
  | refl => exact start
  | tail before body ih => exact keep _ _ ih (visited _ before) body

/-- Where a turn keeps the invariant if it is `ok` and otherwise leads to harm, a loop that comes to
no harm is one whose every turn is `ok`. -/
theorem visits_safe_iff (I ok harmed : σ → Prop)
    (keep : ∀ a b, I a → ok a → step a = some b → I b) (fine : ∀ a, I a → ¬ harmed a)
    (harm : ∀ a, I a → ¬ ok a → ∃ d, Visits step a d ∧ harmed d) {s : σ} (start : I s) :
    (∀ c, Visits step s c → ¬ harmed c) ↔ ∀ c, Visits step s c → ok c := by
  constructor
  · intro safe
    have spared : ∀ c, Visits step s c → I c → ok c := by
      intro c visited inv
      by_contra bad
      obtain ⟨d, later, harmed⟩ := harm c inv bad
      exact safe d (visited.trans later) harmed
    intro c visited
    refine spared c visited ?_
    exact visits_invariant I (Visits step s)
      (fun a b inv met body => keep a b inv (spared a met inv) body) (fun _ met => met) start visited
  · intro good c visited
    exact fine c (visits_invariant I ok keep good start visited)

/-- Total correctness: an invariant and a well-founded measure that every turn lowers. -/
theorem run_total (I : σ → Prop) {r : σ → σ → Prop} (wf : WellFounded r)
    (keep : ∀ a b, I a → step a = some b → I b ∧ r b a) {s : σ} (start : I s) :
    ∃ fuel t, run step fuel s = some t ∧ I t ∧ step t = none := by
  induction s using wf.induction with
  | _ s ih =>
      cases body : step s with
      | none => exact ⟨1, s, run_exit 0 body, start, body⟩
      | some u =>
          obtain ⟨kept, lower⟩ := keep s u start body
          obtain ⟨fuel, t, h, rest⟩ := ih u lower kept
          exact ⟨fuel + 1, t, (run_next fuel body).trans h, rest⟩

/-- Total correctness with the measure in the invariant, for a measure that is not read off the
state. -/
theorem run_ranked (I : ℕ → σ → Prop)
    (keep : ∀ n a b, I n a → step a = some b → ∃ m, m < n ∧ I m b) {n : ℕ} {s : σ}
    (start : I n s) : ∃ fuel m t, run step fuel s = some t ∧ I m t ∧ step t = none := by
  induction n using Nat.strong_induction_on generalizing s with
  | _ n ih =>
      cases body : step s with
      | none => exact ⟨1, n, s, run_exit 0 body, start, body⟩
      | some u =>
          obtain ⟨m, lower, kept⟩ := keep n s u start body
          obtain ⟨fuel, k, t, h, rest⟩ := ih m lower kept
          exact ⟨fuel + 1, k, t, (run_next fuel body).trans h, rest⟩

theorem visits_of_exit {s t : σ} (h : step s = none) (visited : Visits step s t) : t = s := by
  rcases Relation.ReflTransGen.cases_head visited with rfl | ⟨u, body, -⟩
  · rfl
  · rw [h] at body
    cases body

theorem run_visits {fuel : ℕ} {s t : σ} (h : run step fuel s = some t) : Visits step s t :=
  (run_invariant (fun _ => True) (fun _ => True) (fun _ _ _ _ _ => trivial)
    (fun _ _ => trivial) trivial h).2.2

theorem run_left {fuel : ℕ} {s t : σ} (h : run step fuel s = some t) : step t = none :=
  (run_invariant (fun _ => True) (fun _ => True) (fun _ _ _ _ _ => trivial)
    (fun _ _ => trivial) trivial h).2.1

theorem run_of_visits {s t : σ} (visited : Visits step s t) (exit : step t = none) :
    ∃ fuel, run step fuel s = some t := by
  induction visited using Relation.ReflTransGen.head_induction_on with
  | refl => exact ⟨1, run_exit 0 exit⟩
  | head body _ ih =>
      obtain ⟨fuel, h⟩ := ih
      exact ⟨fuel + 1, (run_next fuel body).trans h⟩

theorem visits_exit {s t u : σ} (visited : Visits step s u) (ends : Visits step s t)
    (exit : step t = none) : Visits step u t := by
  have unique : Relator.RightUnique fun a b => step a = some b := fun a b c hb hc =>
    Option.some.inj (hb.symm.trans hc)
  rcases Relation.ReflTransGen.total_of_right_unique unique visited ends with later | earlier
  · exact later
  · rw [visits_of_exit exit earlier]
    exact .refl

/-- A loop whose body is itself a loop: `body` gets the fuel that is left, and has no result if that
is not enough. -/
def runNested (leave : σ → Bool) (body : ℕ → σ → Option σ) : ℕ → σ → Option σ
  | 0, _ => none
  | fuel + 1, s => if leave s then some s else (body fuel s).bind (runNested leave body fuel)

section Nested

variable {leave : σ → Bool} {body : ℕ → σ → Option σ}

theorem runNested_exit {s : σ} (fuel : ℕ) (h : leave s = true) :
    runNested leave body (fuel + 1) s = some s := by
  rw [runNested, if_pos h]

theorem runNested_next {s t : σ} {fuel : ℕ} (h : leave s = false) (turn : body fuel s = some t) :
    runNested leave body (fuel + 1) s = runNested leave body fuel t := by
  rw [runNested, if_neg (by simp [h]), turn, Option.bind_some]

theorem runNested_mono (mono : ∀ m n s t, m ≤ n → body m s = some t → body n s = some t) {m n : ℕ}
    {s t : σ} (more : m ≤ n) (h : runNested leave body m s = some t) :
    runNested leave body n s = some t := by
  induction m generalizing n s with
  | zero => cases h
  | succ m ih =>
      obtain ⟨n, rfl⟩ : ∃ k, n = k + 1 := ⟨n - 1, by omega⟩
      cases done : leave s with
      | true =>
          rw [runNested_exit m done] at h
          rw [runNested_exit n done, h]
      | false =>
          rw [runNested, if_neg (by simp [done])] at h
          obtain ⟨u, turn, rest⟩ := Option.bind_eq_some_iff.mp h
          rw [runNested_next done (mono m n s u (by omega) turn)]
          exact ih (by omega) rest

/-- Total correctness, with the measure in the invariant. -/
theorem runNested_total (I : ℕ → σ → Prop)
    (mono : ∀ m n s t, m ≤ n → body m s = some t → body n s = some t)
    (keep : ∀ n s, I n s → leave s = false → ∃ fuel t m, body fuel s = some t ∧ m < n ∧ I m t)
    {n : ℕ} {s : σ} (start : I n s) :
    ∃ fuel t m, runNested leave body fuel s = some t ∧ leave t = true ∧ I m t := by
  induction n using Nat.strong_induction_on generalizing s with
  | _ n ih =>
      cases done : leave s with
      | true => exact ⟨1, s, n, runNested_exit 0 done, done, start⟩
      | false =>
          obtain ⟨i, t, m, turn, lower, kept⟩ := keep n s start done
          obtain ⟨j, u, k, rest, left, final⟩ := ih m lower kept
          refine ⟨max i j + 1, u, k, ?_, left, final⟩
          rw [runNested_next done (mono i _ s t (le_max_left i j) turn)]
          exact runNested_mono mono (le_max_right i j) rest

theorem runNested_invariant (I : σ → Prop)
    (keep : ∀ fuel s t, I s → leave s = false → body fuel s = some t → I t) {fuel : ℕ} {s t : σ}
    (start : I s) (h : runNested leave body fuel s = some t) : I t ∧ leave t = true := by
  induction fuel generalizing s with
  | zero => cases h
  | succ fuel ih =>
      cases done : leave s with
      | true =>
          rw [runNested_exit fuel done] at h
          obtain rfl := Option.some.inj h
          exact ⟨start, done⟩
      | false =>
          rw [runNested, if_neg (by simp [done])] at h
          obtain ⟨u, turn, rest⟩ := Option.bind_eq_some_iff.mp h
          exact ih (keep fuel s u start done turn) rest

end Nested

theorem run_mono {m n : ℕ} {s t : σ} (more : m ≤ n) (h : run step m s = some t) :
    run step n s = some t := by
  induction m generalizing n s with
  | zero => cases h
  | succ m ih =>
      obtain ⟨n, rfl⟩ : ∃ k, n = k + 1 := ⟨n - 1, by omega⟩
      cases body : step s with
      | none =>
          rw [run_exit m body] at h
          rw [run_exit n body, h]
      | some u =>
          rw [run_next m body] at h
          rw [run_next n body]
          exact ih (by omega) h

theorem run_unique {m n : ℕ} {s t u : σ} (ht : run step m s = some t)
    (hu : run step n s = some u) : t = u := by
  induction m generalizing s n with
  | zero => cases ht
  | succ m ih =>
      cases n with
      | zero => cases hu
      | succ n =>
          cases body : step s with
          | none =>
              rw [run_exit _ body] at ht hu
              exact Option.some.inj (ht.symm.trans hu)
          | some v =>
              rw [run_next _ body] at ht hu
              exact ih ht hu

/-- Run the loop and test every state it meets. -/
def checkAll (step : σ → Option σ) (test : σ → Bool) : ℕ → σ → Bool
  | 0, _ => false
  | fuel + 1, s =>
      test s &&
        match step s with
        | none => true
        | some t => checkAll step test fuel t

theorem visits_of_checkAll {test : σ → Bool} {fuel : ℕ} {s t : σ}
    (h : checkAll step test fuel s = true) (visited : Visits step s t) : test t = true := by
  induction fuel generalizing s with
  | zero => cases h
  | succ fuel ih =>
      rw [checkAll, Bool.and_eq_true] at h
      rcases Relation.ReflTransGen.cases_head visited with rfl | ⟨u, body, rest⟩
      · exact h.1
      · have later := h.2
        rw [body] at later
        exact ih later rest

/-- A change of the state that every turn carries through unread is carried through by the loop. -/
theorem run_map (change : σ → σ) (blind : ∀ s, step (change s) = (step s).map change) (fuel : ℕ)
    (s : σ) : run step fuel (change s) = (run step fuel s).map change := by
  induction fuel generalizing s with
  | zero => rfl
  | succ fuel ih =>
      cases body : step s with
      | none =>
          have exit : step (change s) = none := by rw [blind, body, Option.map_none]
          rw [run_exit _ body, run_exit _ exit, Option.map_some]
      | some t =>
          have next : step (change s) = some (change t) := by rw [blind, body, Option.map_some]
          rw [run_next _ body, run_next _ next, ih]

inductive Path {ι : Type*} (move : σ → ι → σ → Prop) : σ → List ι → σ → Prop
  | nil (s : σ) : Path move s [] s
  | cons {s t u : σ} {i : ι} {is : List ι} : move s i t → Path move t is u → Path move s (i :: is) u

/-- A relation that every step can be answered in is one that every path can be answered in. -/
theorem Path.simulate {ι : Type*} {move : σ → ι → σ → Prop} {allowed : ι → Prop}
    (R : σ → σ → Prop) (answer : ∀ s s' i t, R s s' → allowed i → move s i t →
      ∃ t', move s' i t' ∧ R t t') {s s' t : σ} {is : List ι} (related : R s s')
    (ok : ∀ i ∈ is, allowed i) (path : Path move s is t) : ∃ t', Path move s' is t' ∧ R t t' := by
  induction path generalizing s' with
  | nil s => exact ⟨s', .nil s', related⟩
  | cons taken _ ih =>
      obtain ⟨u, taken', related'⟩ := answer _ _ _ _ related (ok _ (by simp)) taken
      obtain ⟨v, path', related''⟩ := ih related' fun i hi => ok i (by simp [hi])
      exact ⟨v, .cons taken' path', related''⟩

/-- The states reached from a start state by steps that were allowed where they were taken. -/
inductive Reach {ι : Type*} (start : σ → Prop) (move : σ → ι → σ → Prop)
    (allowed : σ → ι → Prop) : σ → Prop
  | start {s : σ} : start s → Reach start move allowed s
  | move {s t : σ} {i : ι} :
      Reach start move allowed s → allowed s i → move s i t → Reach start move allowed t

theorem Reach.invariant {ι : Type*} {start : σ → Prop} {move : σ → ι → σ → Prop}
    {allowed : σ → ι → Prop} (I : σ → Prop) (first : ∀ s, start s → I s)
    (keep : ∀ s i t, I s → allowed s i → move s i t → I t) {s : σ}
    (h : Reach start move allowed s) : I s := by
  induction h with
  | start hs => exact first _ hs
  | move _ ok taken ih => exact keep _ _ _ ih ok taken

theorem Reach.mono {ι : Type*} {start : σ → Prop} {move : σ → ι → σ → Prop}
    {allowed allowed' : σ → ι → Prop} (weaker : ∀ s i, allowed s i → allowed' s i) {s : σ}
    (h : Reach start move allowed s) : Reach start move allowed' s := by
  induction h with
  | start hs => exact .start hs
  | move _ ok taken ih => exact .move ih (weaker _ _ ok) taken

end AeEventLoop.WhileLoop
