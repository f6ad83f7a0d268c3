import ReactiveTemplate.Page.Session
import ReactiveTemplate.Proofs.Clock.Running
import ReactiveTemplate.Proofs.Component.Writing

/-!
# Runs without a render

Programs that only read and write leave every component either with a render pending or with the meaning
it had, and so do the handlers that run them and the dispatch of an event. The document is not touched.

How the runs around a render can end, and what led there, is told first.
-/

namespace ReactiveTemplate

open Json

/-- A program that does no more than read and evaluate, and write to some fields. -/
def Program.Modest (writable : String → Prop) : Program → Prop
  | done | fail _ => True
  | get _ next => ∀ answer, (next answer).Modest writable
  | set field _ next => writable field ∧ ∀ answer, (next answer).Modest writable
  | evaluate _ next => ∀ answer, (next answer).Modest writable
  | renderCount next => ∀ answer, (next answer).Modest writable
  | note _ next => next.Modest writable
  | render _ | requestFollowUp _ | takeFollowUp _ | dispatch _ _ _ | remove _ _ => False

/-- More fields may be written. -/
theorem Program.Modest.mono {writable writable' : String → Prop} {program : Program}
    (h : program.Modest writable) (hw : ∀ {field}, writable field → writable' field) :
    program.Modest writable' := by
  induction program with
  | done | fail e => exact trivial
  | get field next ih | evaluate source next ih | renderCount next ih =>
    exact fun answer => ih answer (h answer)
  | set field value next ih => exact ⟨hw h.1, fun answer => ih answer (h.2 answer)⟩
  | note entry next ih => exact ih h
  | render next | requestFollowUp next | takeFollowUp next | dispatch selector event next
  | remove selector next => exact h.elim

/-- The methods and the hook of a component do no more than read and evaluate, and write to fields that
may be written. -/
structure Component.Restrained (c : Component) : Prop where
  methods : ∀ {name body}, c.methods.lookup name = some body → ∀ arguments,
    (body arguments).Modest c.Writable
  hook : ∀ {program}, c.hook = some program → program.Modest c.Writable

namespace Page

variable {α β : Type} {p p' p'' : Page} {id : ComponentId}

/-- A run after a look at the page. -/
theorem Run.look_bind (f : Page → α) (k : α → Run β) (p : Page) : (Run.look f >>= k) p = k (f p) p :=
  rfl

/-- A run after an operation that runs nothing else. -/
theorem Run.plain_bind (f : Page → α × Page) (k : α → Run β) (p : Page) :
    (Run.plain f >>= k) p = k (f p).1 (f p).2 :=
  rfl

/-- What ran while a component was kept alive. -/
theorem whileRunning_eq_some {m : Run α} {a : α} :
    whileRunning id m p = some (a, p') ↔
      ∃ q, m { p with running := id :: p.running } = some (a, q) ∧
        p' = { q with running := p.running } := by
  change (m { p with running := id :: p.running }).bind
    (fun aq => some (aq.1, { aq.2 with running := p.running })) = _ ↔ _
  cases m { p with running := id :: p.running } with
  | none => simp
  | some aq =>
    obtain ⟨b, q⟩ := aq
    constructor
    · intro h
      cases h
      exact ⟨q, rfl, rfl⟩
    · intro h
      obtain ⟨q', hq, hpage⟩ := h
      cases hq
      rw [hpage, Option.bind_some]

/-- How a render with its hook can end: the render fails, there is no hook, or the hook runs. -/
inductive Rendered (cb : Callbacks) (id : ComponentId) (p : Page) : Except Error Unit → Page → Prop
  | failed {e : Error} {q : Page} (hswap : p.swapIn id = (.error e, q)) : Rendered cb id p (.error e) q
  | unhooked {q : Page} (hswap : p.swapIn id = (.ok (), q))
      (hhook : (q.component? id).bind Component.hook = none) : Rendered cb id p (.ok ()) q
  | hooked {q p' : Page} {program : Program} {result : Except Error Unit} (hswap : p.swapIn id = (.ok (), q))
      (hhook : (q.component? id).bind Component.hook = some program)
      (hrun : runProgram cb id program q = some (result, p')) : Rendered cb id p result p'

/-- A render with its hook ends in one of these ways. -/
theorem rendered_of_renderNow {cb : Callbacks} {result : Except Error Unit}
    (hrun : renderNow cb id p = some (result, p')) : Rendered cb id p result p' := by
  rw [renderNow, Run.plain_bind] at hrun
  generalize hswap : p.swapIn id = out at hrun
  obtain ⟨e | u, q⟩ := out
  · cases hrun
    exact .failed hswap
  · dsimp only at hrun
    rw [Run.look_bind] at hrun
    cases hhook : (q.component? id).bind Component.hook with
    | none =>
      rw [hhook] at hrun
      cases hrun
      exact .unhooked hswap hhook
    | some program =>
      rw [hhook] at hrun
      exact .hooked hswap hhook hrun

/-- How building a component can end: it cannot be prepared, its first render or the hook fails, or it is held
under its name. -/
inductive Built (cb : Callbacks) (name : String) (b : Blueprint) (p : Page) :
    Except Error ComponentId → Page → Prop
  | unprepared {e : Error} (hprepare : b.prepare p.document = .error e) : Built cb name b p (.error e) p
  | failed {c : Component} {e : Error} {q : Page} (hprepare : b.prepare p.document = .ok c)
      (hrender : whileRunning p.components.length (renderNow cb p.components.length)
        { p with components := p.components ++ [c] } = some (.error e, q)) : Built cb name b p (.error e) q
  | done {c : Component} {q : Page} (hprepare : b.prepare p.document = .ok c)
      (hrender : whileRunning p.components.length (renderNow cb p.components.length)
        { p with components := p.components ++ [c] } = some (.ok (), q)) :
      Built cb name b p (.ok p.components.length)
        { q with handles := Dictionary.put name p.components.length q.handles }

/-- Building a component ends in one of these ways. -/
theorem built_of_build {cb : Callbacks} {name : String} {b : Blueprint} {result : Except Error ComponentId}
    (hrun : build cb name b p = some (result, p')) : Built cb name b p result p' := by
  rw [build, Run.look_bind] at hrun
  cases hprepare : b.prepare p.document with
  | error e =>
    rw [hprepare] at hrun
    cases hrun
    exact .unprepared hprepare
  | ok c =>
    rw [hprepare] at hrun
    dsimp only at hrun
    rw [Run.look_bind, modify_bind] at hrun
    obtain ⟨rendered, q, hrender, hend⟩ := bind_eq_some.mp hrun
    cases rendered with
    | error e =>
      cases hend
      exact .failed hprepare hrender
    | ok u =>
      dsimp only at hend
      rw [modify_bind] at hend
      cases hend
      exact .done hprepare hrender

/-- The components of a page on which one was set. -/
theorem component?_setComponent {c : Component} (hc : p.component? id = some c) (c' : Component)
    (other : ComponentId) :
    (p.setComponent id c').component? other = if id = other then some c' else p.component? other := by
  have hlt := (List.getElem?_eq_some_iff.mp hc).1
  rw [component?, setComponent, List.getElem?_set, if_pos hlt, component?]

/-- The components of a page on which one was changed. -/
theorem component?_updateComponent (p : Page) (id : ComponentId) (f : Component → Component)
    (other : ComponentId) :
    (p.updateComponent id f).component? other =
      if id = other then (p.component? other).map f else p.component? other := by
  rw [component?, updateComponent, List.getElem?_modify, component?]
  by_cases heq : id = other
  · simp [heq]
  · simp [heq]

/-- A write does not touch the document. -/
theorem document_write (p : Page) (id : ComponentId) (field : String) (value : Value) :
    (p.write id field value).2.document = p.document := by
  rw [write]
  split
  · rfl
  · dsimp only
    split <;> rfl

/-- The components of a page on which a field was written. -/
theorem component?_write (p : Page) (id : ComponentId) (field : String) (value : Value) (other : ComponentId) :
    (p.write id field value).2.component? other =
      if id = other then (p.component? other).map (·.write field value |>.2.2) else p.component? other := by
  rw [write]
  cases hc : p.component? id with
  | none =>
    by_cases heq : id = other
    · rw [if_pos heq, ← heq, hc]
      rfl
    · rw [if_neg heq]
  | some c =>
    have hset : ∀ q : Page, q.components = (p.setComponent id (c.write field value).2.2).components →
        q.component? other =
          if id = other then (p.component? other).map (·.write field value |>.2.2) else p.component? other := by
      intro q hq
      rw [component?, hq, ← component?, component?_setComponent hc]
      by_cases heq : id = other
      · rw [if_pos heq, if_pos heq, ← heq, hc, Option.map_some]
      · rw [if_neg heq, if_neg heq]
    dsimp only
    split
    · exact hset _ rfl
    · exact hset _ rfl

/-- A field that may be written to a component of the page. -/
def Writable (p : Page) (id : ComponentId) (field : String) : Prop :=
  ∀ c, p.component? id = some c → c.Writable field

/-- What may be written to the record of a component may be written to it on the page. -/
theorem writable_of_component? {c : Component} (hc : p.component? id = some c) {field : String}
    (hw : c.Writable field) : p.Writable id field := by
  intro c' hc'
  rw [hc] at hc'
  cases hc'
  exact hw

/-- A later page on which nothing was rendered: the document is the same, the same components are held
and running, and each has moved on by itself. -/
structure Undisturbed (p p' : Page) : Prop where
  document : p'.document = p.document
  handles : p'.handles = p.handles
  running : p'.running = p.running
  moved : ∀ {id c}, p.component? id = some c → ∃ c', p'.component? id = some c' ∧ c.Moved c'
  back : ∀ {id c'}, p'.component? id = some c' → ∃ c, p.component? id = some c

namespace Undisturbed

/-- A page on which only notes were made. -/
theorem of_eq (hdocument : p'.document = p.document) (hcomponents : p'.components = p.components)
    (hhandles : p'.handles = p.handles) (hrunning : p'.running = p.running) : Undisturbed p p' where
  document := hdocument
  handles := hhandles
  running := hrunning
  moved {id c} hc := ⟨c, by rwa [component?, hcomponents], .refl c⟩
  back {id c'} hc := ⟨c', by rwa [component?, hcomponents] at hc⟩

/-- A page on which nothing happened. -/
theorem refl (p : Page) : Undisturbed p p :=
  of_eq rfl rfl rfl rfl

/-- One part of a run after another. -/
theorem trans (h : Undisturbed p p') (h' : Undisturbed p' p'') : Undisturbed p p'' where
  document := h'.document.trans h.document
  handles := h'.handles.trans h.handles
  running := h'.running.trans h.running
  moved hc := by
    obtain ⟨c', hc', hmoved⟩ := h.moved hc
    obtain ⟨c'', hc'', hmore⟩ := h'.moved hc'
    exact ⟨c'', hc'', hmoved.trans hmore⟩
  back hc := by
    obtain ⟨c', hc'⟩ := h'.back hc
    exact h.back hc'

/-- What a component of the later page was before. -/
theorem before (h : Undisturbed p p') {c' : Component} (hc' : p'.component? id = some c') :
    ∃ c, p.component? id = some c ∧ c.Moved c' := by
  obtain ⟨c, hc⟩ := h.back hc'
  obtain ⟨c'', hc'', hmoved⟩ := h.moved hc
  rw [hc'] at hc''
  cases hc''
  exact ⟨c, hc, hmoved⟩

/-- What may be written stays so. -/
theorem writable (h : Undisturbed p p') {field : String} (hw : p.Writable id field) :
    p'.Writable id field := by
  intro c' hc'
  obtain ⟨c, hc, hmoved⟩ := h.before hc'
  exact hmoved.writable (hw c hc)

/-- Setting the record of one component to one that has moved on. -/
theorem of_moved {c c' : Component} (hc : p.component? id = some c) (h : c.Moved c') :
    Undisturbed p (p.setComponent id c') where
  document := rfl
  handles := rfl
  running := rfl
  moved {other d} hd := by
    rw [component?_setComponent hc]
    by_cases heq : id = other
    · subst heq
      rw [hc] at hd
      cases hd
      exact ⟨c', if_pos rfl, h⟩
    · exact ⟨d, by rw [if_neg heq, hd], .refl d⟩
  back {other d} hd := by
    rw [component?_setComponent hc] at hd
    by_cases heq : id = other
    · exact ⟨c, heq ▸ hc⟩
    · rw [if_neg heq] at hd
      exact ⟨d, hd⟩

/-- A change of the record of one component after which it has moved on. -/
theorem of_updateComponent {f : Component → Component} (hf : ∀ c : Component, c.Moved (f c)) :
    Undisturbed p (p.updateComponent id f) where
  document := rfl
  handles := rfl
  running := rfl
  moved {other c} hc := by
    rw [component?_updateComponent, hc]
    by_cases heq : id = other
    · exact ⟨f c, by rw [if_pos heq, Option.map_some], hf c⟩
    · exact ⟨c, by rw [if_neg heq], .refl c⟩
  back {other c'} hc' := by
    rw [component?_updateComponent] at hc'
    cases hc : p.component? other with
    | none => simp [hc] at hc'
    | some c => exact ⟨c, rfl⟩

/-- A note in the log. -/
theorem record (p : Page) (entries : List Entry) : Undisturbed p (p.record entries) :=
  of_eq rfl rfl rfl rfl

end Undisturbed

/-- A write to a field that may be written renders nothing. -/
theorem undisturbed_write {field : String} (hw : p.Writable id field) (value : Value) :
    Undisturbed p (p.write id field value).2 := by
  rw [write]
  cases hc : p.component? id with
  | none => exact .refl p
  | some c =>
    have hmoved := Undisturbed.of_moved hc (c.moved_write (hw c hc) value)
    dsimp only
    split
    · exact hmoved.trans (.of_eq rfl rfl rfl rfl)
    · exact hmoved

/-- The value of an expression is found without a render. -/
theorem undisturbed_value (p : Page) (id : ComponentId) (e : Expression) :
    Undisturbed p (p.value id e).2 := by
  rw [value]
  cases p.component? id with
  | none => exact .refl p
  | some c => exact .record p _

/-- The value of a source is found without a render. -/
theorem undisturbed_evaluate (p : Page) (id : ComponentId) (source : String) :
    Undisturbed p (p.evaluate id source).2 := by
  rw [evaluate]
  cases hc : p.component? id with
  | none => exact .refl p
  | some c => exact (Undisturbed.of_moved hc (c.moved_evaluate source)).trans (.record _ _)

/-- Taking the error of a component renders nothing. -/
theorem undisturbed_takeError (p : Page) (id : ComponentId) : Undisturbed p (p.takeError id).2 :=
  .of_updateComponent fun _ => ⟨⟨rfl, rfl, rfl, rfl⟩, rfl, Or.inr ⟨rfl, rfl⟩⟩

/-- A run that renders nothing if it comes to an end. -/
def Calm (m : Run α) (p : Page) : Prop :=
  ∀ a p', m p = some (a, p') → Undisturbed p p'

namespace Calm

/-- Answering renders nothing. -/
theorem pure (a : α) : Calm (pure a : Run α) p := by
  intro b p' h
  cases h
  exact .refl p

/-- An operation that renders nothing. -/
theorem plain {f : Page → α × Page} (h : Undisturbed p (f p).2) : Calm (Run.plain f) p := by
  intro a p' hrun
  have hpage : (f p).2 = p' := congrArg Prod.snd (Option.some.inj hrun)
  rwa [← hpage]

/-- A change that renders nothing. -/
theorem modify {f : Page → Page} (h : Undisturbed p (f p)) : Calm (modify f : Run PUnit) p := by
  intro a p' hrun
  cases hrun
  exact h

/-- One run after another. -/
theorem bind {m : Run α} {f : α → Run β} (hm : Calm m p)
    (hf : ∀ a p', Undisturbed p p' → Calm (f a) p') : Calm (m >>= f) p := by
  intro b p'' hrun
  obtain ⟨a, p', hfirst, hrest⟩ := bind_eq_some.mp hrun
  have hbefore := hm a p' hfirst
  exact hbefore.trans (hf a p' hbefore b p'' hrest)

/-- A look at the page. -/
theorem view (f : Page → α) : Calm (Run.look f) p := by
  intro a p' hrun
  cases hrun
  exact .refl p

/-- A run after a look at the page. -/
theorem look (f : Page → α) {k : α → Run β} (h : Calm (k (f p)) p) : Calm (Run.look f >>= k) p :=
  h

/-- Keeping a component alive meanwhile renders nothing. -/
theorem whileRunning {m : Run α} (h : Calm m { p with running := id :: p.running }) :
    Calm (whileRunning id m) p := by
  intro a p' hrun
  obtain ⟨q, hbody, hpage⟩ := whileRunning_eq_some.mp hrun
  subst hpage
  have hcalm := h a q hbody
  exact ⟨hcalm.document, hcalm.handles, rfl, hcalm.moved, hcalm.back⟩

end Calm

/-- A program that does no more than read, and write to fields that may be written, renders nothing. -/
theorem calm_runProgram (cb : Callbacks) {program : Program} (h : program.Modest (p.Writable id)) :
    Calm (runProgram cb id program) p := by
  induction program generalizing p with
  | done => exact .pure _
  | fail e => exact .pure _
  | get field next ih => exact .look _ (ih _ (h _))
  | set field value next ih =>
    exact .bind (.plain (undisturbed_write h.1 value)) fun answer p' hp' =>
      ih answer ((h.2 answer).mono hp'.writable)
  | evaluate source next ih =>
    exact .bind (.plain (undisturbed_evaluate p id source)) fun answer p' hp' =>
      ih answer ((h answer).mono hp'.writable)
  | renderCount next ih => exact .look _ (ih _ (h _))
  | note entry next ih =>
    exact .bind (.modify (.record p _)) fun _ p' hp' => ih (h.mono hp'.writable)
  | render next | requestFollowUp next | takeFollowUp next | dispatch selector event next
  | remove selector next => exact h.elim

end Page

end ReactiveTemplate
