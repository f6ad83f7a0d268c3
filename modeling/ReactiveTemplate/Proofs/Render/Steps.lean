import ReactiveTemplate.Proofs.Document.Growth
import ReactiveTemplate.Proofs.Render.Dressing

/-!
# Steps of a render and what they compute

A render step is compared with a computation without a document. `Quiet` steps only look names up.
Steps that build agree with a computation: both end with the same error, or both end with values, and
the document is then as the values say.
-/

namespace ReactiveTemplate

open Json

variable {L : Type} {α β γ δ : Type}

namespace Render

/-- What a step gives in a state, and the state after it. -/
def outcome (m : Render L α) (st : RenderState L) : Except Error α × RenderState L :=
  m.run.run st

/-- A step and another after it, which the error of the first prevents. -/
theorem outcome_bind (m : Render L α) (f : α → Render L β) (st : RenderState L) :
    (m >>= f).outcome st =
      match m.outcome st with
      | (.ok a, after) => (f a).outcome after
      | (.error e, after) => (.error e, after) := by
  change (ExceptT.bindCont f (m.outcome st).1).run (m.outcome st).2 = _
  rcases m.outcome st with ⟨_ | _, after⟩ <;> rfl

/-- A step whose error is handled. -/
theorem outcome_tryCatch (m : Render L α) (f : Error → Render L α) (st : RenderState L) :
    (tryCatch m f).outcome st =
      match m.outcome st with
      | (.ok a, after) => (.ok a, after)
      | (.error e, after) => (f e).outcome after := by
  rcases hout : m.outcome st with ⟨_ | _, after⟩
  all_goals
    have hrun : StateT.run m st = _ := hout
    simp only [outcome, tryCatch, tryCatchThe, MonadExceptOf.tryCatch, ExceptT.tryCatch, ExceptT.run_mk,
      StateT.run_bind, hrun]
    rfl

/-- A step that cannot fail, followed by another. -/
theorem outcome_lift_bind (m : StateM (RenderState L) α) (f : α → Render L β) (st : RenderState L) :
    ((liftM m : Render L α) >>= f).outcome st = (f (m.run st).1).outcome (m.run st).2 :=
  rfl

/-- What comes after a step whose error is looked at. -/
theorem run_run_bind (m : Render L α) (f : Except Error α → StateM (RenderState L) β)
    (st : RenderState L) :
    (m.run >>= f).run st = (f (m.outcome st).1).run (m.outcome st).2 :=
  rfl

/-! ### Steps that look names up -/

/-- A step that ends the same way in every state and does not touch the document. -/
def Quiet (m : Render L α) (r : Except Error α) : Prop :=
  ∀ st, (m.outcome st).1 = r ∧ (m.outcome st).2.document = st.document

namespace Quiet

/-- Giving a value is quiet. -/
theorem pure (a : α) : Quiet (pure a : Render L α) (.ok a) :=
  fun _ => ⟨rfl, rfl⟩

/-- Failing is quiet. -/
theorem throw (e : Error) : Quiet (throw e : Render L α) (.error e) :=
  fun _ => ⟨rfl, rfl⟩

/-- Two quiet steps, one after the other. -/
theorem bind {m : Render L α} {f : α → Render L β} {r : Except Error α} {g : α → Except Error β}
    (hm : Quiet m r) (hf : ∀ a, Quiet (f a) (g a)) : Quiet (m >>= f) (r >>= g) := by
  intro st
  obtain ⟨hresult, hdocument⟩ := hm st
  rw [outcome_bind]
  rcases hout : m.outcome st with ⟨e | a, after⟩
  · rw [hout] at hresult hdocument
    subst hresult
    exact ⟨rfl, hdocument⟩
  · rw [hout] at hresult hdocument
    subst hresult
    exact ⟨(hf a after).1, (hf a after).2.trans hdocument⟩

/-- A quiet step for each item of a list. -/
theorem mapM {f : α → Render L β} {g : α → Except Error β} (hf : ∀ a, Quiet (f a) (g a)) (as : List α) :
    Quiet (as.mapM f) (as.mapM g) := by
  induction as with
  | nil => exact pure []
  | cons a rest ih =>
    rw [List.mapM_cons, List.mapM_cons]
    exact (hf a).bind fun b => ih.bind fun bs => pure (b :: bs)

end Quiet

variable (s : Surroundings L) (scope : Scope)

/-- Evaluating an expression gives its value. -/
theorem quiet_evaluate (e : Expression) : Quiet (evaluate s scope e) (e.valueIn s.resolver scope) := by
  intro st
  rw [evaluate, outcome_bind]
  cases heval : e.eval scope s.resolver with
  | ok value => exact ⟨by rw [Expression.valueIn, heval]; rfl, rfl⟩
  | error err => exact ⟨by rw [Expression.valueIn, heval]; rfl, rfl⟩

/-- Evaluating a mapping gives its values. -/
theorem quiet_evaluateMapping (m : Mapping) :
    Quiet (evaluateMapping s scope m) (m.valuesIn s.resolver scope) := by
  induction m with
  | nil => exact Quiet.pure []
  | cons entry rest ih =>
    obtain ⟨name, e⟩ := entry
    rw [evaluateMapping, List.mapM_cons, bind_assoc]
    apply (quiet_evaluate s scope e).bind
    intro value
    rw [pure_bind]
    exact ih.bind fun more => Quiet.pure _

/-- Interpolating parts gives their text. -/
theorem quiet_interpolate (parts : List (Interpolated Expression)) :
    Quiet (interpolate s scope parts) (Interpolated.textIn s.resolver scope parts) := by
  induction parts with
  | nil => exact Quiet.pure ""
  | cons part rest ih =>
    cases part with
    | literal text => exact ih.bind fun more => Quiet.pure _
    | expression e =>
      exact (quiet_evaluate s scope e).bind fun value => ih.bind fun more => Quiet.pure _

/-- Binding an argument gives the argument with its value. -/
theorem quiet_bindArgument (argument : Argument Expression) :
    Quiet (bindArgument s scope argument) (argument.boundIn s.resolver scope) := by
  cases argument with
  | event => exact Quiet.pure _
  | given e => exact (quiet_evaluate s scope e).bind fun value => Quiet.pure _

/-- Binding an action gives the action with the values of its arguments. -/
theorem quiet_bindAction (action : Action Expression Expression) :
    Quiet (bindAction s scope action) (action.boundIn s.resolver scope) := by
  cases action with
  | assign target value => exact Quiet.pure _
  | invoke method arguments =>
    exact (Quiet.mapM (quiet_bindArgument s scope) arguments).bind fun bound => Quiet.pure _

/-- The rounds of an iteration, or the error that its source cannot be iterated. -/
theorem quiet_rounds (i : Iteration) {k : Value → Render L (List Scope)}
    (hok : ∀ {source frames}, i.frames source = .ok frames → k source = Pure.pure (frames.map scope.push))
    (herror : ∀ {source e}, i.frames source = .error e → k source = MonadExcept.throw e) :
    Quiet (evaluate s scope i.source >>= k) (i.scopesIn s.resolver scope) := by
  rw [Iteration.scopesIn_eq]
  apply (quiet_evaluate s scope i.source).bind
  intro source
  cases hframes : i.frames source with
  | ok frames =>
    rw [hok hframes]
    exact Quiet.pure _
  | error e =>
    rw [herror hframes]
    exact Quiet.throw e

/-- The scopes of the copies of an element. -/
theorem quiet_scopes (directives : Directives) :
    Quiet (scopes s scope directives) (directives.scopesIn s.resolver scope) := by
  unfold scopes Directives.scopesIn Directives.shownIn
  cases directives.condition with
  | none =>
    cases directives.iteration with
    | none => exact Quiet.pure [scope]
    | some i => exact quiet_rounds s scope i (fun h => by rw [h]) (fun h => by rw [h])
  | some condition =>
    simp only [bind_assoc, pure_bind]
    apply (quiet_evaluate s scope condition).bind
    intro value
    cases value.truthy with
    | false => exact Quiet.pure []
    | true =>
      cases directives.iteration with
      | none => exact Quiet.pure [scope]
      | some i => exact quiet_rounds s scope i (fun h => by rw [h]) (fun h => by rw [h])

/-! ### Steps that build -/

/-- How a step ended, beside a computation: with the same error and a document that has `failed`, or
with a value, and `done` of it, of the value computed and of the document. -/
inductive Agrees (done : α → β → Document L → Prop) (failed : Document L → Prop) :
    Except Error α × RenderState L → Except Error β → Prop where
  | ok {a : α} {b : β} {after : RenderState L} (h : done a b after.document) :
      Agrees done failed (.ok a, after) (.ok b)
  | error {e : Error} {after : RenderState L} (h : failed after.document) :
      Agrees done failed (.error e, after) (.error e)

namespace Agrees

variable {done : α → β → Document L → Prop} {failed : Document L → Prop}
variable {m : Render L α} {r : Except Error β} {st : RenderState L}

/-- Two steps that agree, one after the other. -/
theorem bind {done' : γ → δ → Document L → Prop} {f : α → Render L γ} {g : β → Except Error δ}
    (hm : Agrees done failed (m.outcome st) r)
    (hf : ∀ a b after, done a b after.document → Agrees done' failed ((f a).outcome after) (g b)) :
    Agrees done' failed ((m >>= f).outcome st) (r >>= g) := by
  rw [outcome_bind]
  generalize m.outcome st = out at hm
  cases hm with
  | ok h => exact hf _ _ _ h
  | error h => exact .error h

/-- A quiet step and one that agrees after it. -/
theorem quiet_bind {done : γ → δ → Document L → Prop} {r : Except Error α} {f : α → Render L γ}
    {g : α → Except Error δ} (hm : Quiet m r) (hfailed : failed st.document)
    (hf : ∀ a after, after.document = st.document → Agrees done failed ((f a).outcome after) (g a)) :
    Agrees done failed ((m >>= f).outcome st) (r >>= g) := by
  obtain ⟨hresult, hdocument⟩ := hm st
  rw [outcome_bind]
  rcases hout : m.outcome st with ⟨e | a, after⟩
  · rw [hout] at hresult hdocument
    subst hresult
    exact .error (hdocument ▸ hfailed)
  · rw [hout] at hresult hdocument
    subst hresult
    exact hf a after hdocument

/-- A step whose end is known and one that agrees after it. -/
theorem after_ok {m : Render L γ} {f : γ → Render L α} {c : γ} {P : RenderState L → Prop}
    (hm : ∃ after, m.outcome st = (.ok c, after) ∧ P after)
    (hf : ∀ after, P after → Agrees done failed ((f c).outcome after) r) :
    Agrees done failed ((m >>= f).outcome st) r := by
  obtain ⟨after, hout, hafter⟩ := hm
  rw [outcome_bind, hout]
  exact hf after hafter

/-- The value computed may be changed at the end. -/
theorem map_right {g : β → γ} {done : α → γ → Document L → Prop} {out : Except Error α × RenderState L}
    (h : Agrees (fun a b => done a (g b)) failed out r) :
    Agrees done failed out (r >>= fun b => Pure.pure (g b)) := by
  cases h with
  | ok h => exact .ok h
  | error h => exact .error h

/-- What holds after a step may be said in a weaker way. -/
theorem imp {done' : α → β → Document L → Prop} {failed' : Document L → Prop}
    {out : Except Error α × RenderState L} (h : Agrees done failed out r)
    (hdone : ∀ a b d, done a b d → done' a b d) (hfailed : ∀ d, failed d → failed' d) :
    Agrees done' failed' out r := by
  cases h with
  | ok h => exact .ok (hdone _ _ _ h)
  | error h => exact .error (hfailed _ h)

end Agrees

end Render

end ReactiveTemplate
