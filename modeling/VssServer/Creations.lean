import VssServer.Efforts
import VssServer.Phases

/-!
# Creations that wait for each other

A creation waits for the values of what it got, and these for what they got.  Where
every `create` gets what it waits for, and no type needs itself, the threads that wait
form chains along which the types get smaller: `Creations` says what is kept of this
by the steps of a history in phases.

* `Called`, `Creations`: what is known of the creations that have begun.
* `Gotten`: a creation has what the calls that it has made have got.
* `Step.creations`: every step of a history in phases keeps this.
-/

namespace SingletonStorage

variable {K : Type}

/-- A `create` waits only for the values of what it has got. -/
def Program.Proper (p : Program K) : Prop :=
  ∀ k done k' body, p.create k = done ++ .value k' :: body → .get k' ∈ done

/-- The object that a frame has found, and that its creation was begun of. -/
def Frame.called : Frame K → Option Ptr
  | .getRecycle _ o | .getInsert _ o | .getUnlock o | .getRef o | .creating o | .wait o _ => some o
  | _ => none

/-- The object whose value a frame waits for or creates. -/
def Frame.awaits : Frame K → Option Ptr
  | .creating o | .wait o _ => some o
  | _ => none

/-- The type that a `get` asks for. -/
def Frame.asks (s : State K) : Frame K → Option K
  | .getLock k | .getFind k | .getRecycle k _ | .getCreate k _ | .getInsert k _ => some k
  | .getUnlock o | .getRef o => some (s.singletons o).key
  | _ => none

/-- Whatever can be waited for was begun. -/
structure Called [DecidableEq K] (s : State K) : Prop where
  entries : ∀ k o, s.children.lookup k = some o → (s.singletons o).future ≠ .unset
  refs : ∀ r ∈ s.refs, (s.singletons r.2).future ≠ .unset
  frames : ∀ t, ∀ f ∈ s.stack t, ∀ o, f.called = some o → (s.singletons o).future ≠ .unset

/-- The creation of `v` has a `k`, or is in the `get` of one. -/
def Has (s : State K) (t : Tid) (v : Ptr) (k : K) : Prop :=
  (∃ o, (.value v, o) ∈ s.refs ∧ (s.singletons o).key = k) ∨
    ∃ f rest, s.stack t = f :: .creating v :: rest ∧ f.asks s = some k

/-- The creation of `v` has what the calls that it has made have got. -/
def Gotten (p : Program K) (s : State K) (t : Tid) (v : Ptr) : Prop :=
  ∃ done, p.create (s.singletons v).key = done ++ (s.singletons v).body ∧
    ∀ k, .get k ∈ done → Has s t v k

/-- What is above a creation waits for smaller types. -/
def Nested (p : Program K) (key : Ptr → K) (frames : List (Frame K)) : Prop :=
  frames.Pairwise fun f g => ∀ o v, f.awaits = some o → g = .creating v →
    Relation.TransGen p.Needs (key o) (key v)

/-- The creations that have begun, and the threads that run them. -/
structure Creations (p : Program K) (s : State K) : Prop where
  uncalled : ∀ o, (s.singletons o).createCalls = 0 → (s.singletons o).future = .unset
  fresh : ∀ v < s.bound,
    (s.singletons v).future = .unset ∨ (s.singletons v).future = .deferred →
    (s.singletons v).body = p.create (s.singletons v).key
  started : ∀ t v, .creating v ∈ s.stack t → (s.singletons v).future = .running
  alone : ∀ t t' v, .creating v ∈ s.stack t → .creating v ∈ s.stack t' → t = t'
  nested : ∀ t, Nested p (fun o => (s.singletons o).key) (s.stack t)
  gotten : ∀ t v, .creating v ∈ s.stack t → Gotten p s t v

variable [DecidableEq K] {p : Program K} {s s' : State K} {l : Label K}

/-- A future that has been set stays set. -/
theorem Step.future_set (hs : Step p s l s') {o : Ptr} (ho : o < s.bound)
    (h : (s.singletons o).future ≠ .unset) : (s'.singletons o).future ≠ .unset := by
  cases hs.object o with
  | same eq => rwa [eq]
  | new _ _ fresh _ _ => exact absurd fresh ho.ne
  | alters eq step =>
      rw [eq]
      cases step with
      | createFuture =>
          dsimp only
          split <;> simp
      | createDone | waitDeferred => simp
      | _ => exact h

/-- A `get` sets the future of what it creates. -/
theorem Step.createFuture_set (hs : Step p s l s') {t : Tid} {k : K} {o : Ptr}
    {rest : List (Frame K)} (top : s.stack t = .getCreate k o :: rest) (htid : t = l.tid) :
    (s'.singletons o).future ≠ .unset := by
  cases hs
  case getCreate top' =>
    subst htid
    cases top.symm.trans top'
    simp only [State.goto_singletons, State.createFuture, State.modify_singletons,
      Function.update_self]
    split <;> simp
  all_goals
    subst htid
    first
    | cases top.symm.trans ‹s.stack _ = []›
    | cases top.symm.trans ‹s.stack _ = _›

/-- What a frame has found stays begun. -/
theorem Called.kept (h : Called s) (hs : Step p s l s') (hsound : Sound s) {t : Tid} {f : Frame K}
    {o : Ptr} (hf : f ∈ s.stack t) (ho : f.called = some o) :
    (s'.singletons o).future ≠ .unset := by
  have hpointer : o ∈ f.pointers := by
    cases f <;> simp_all [Frame.called, Frame.pointers]
  exact hs.future_set (hsound.allocated.frames t f hf o hpointer) (h.frames t f hf o ho)

/-- An entry was there before with its future, or a `get` inserts it after it has set it. -/
theorem Step.called_entries (hs : Step p s l s') (hsound : Sound s) (h : Called s) {k : K}
    {o : Ptr} (entry : s'.children.lookup k = some o) : (s'.singletons o).future ≠ .unset := by
  have hkept : ∀ k' o', s.children.lookup k' = some o' → (s'.singletons o').future ≠ .unset :=
    fun k' o' hentry =>
      hs.future_set (hsound.allocated.children k' o' hentry) (h.entries k' o' hentry)
  have hinserted : ∀ {t k' o' rest}, s.stack t = .getInsert k' o' :: rest →
      (s'.singletons o').future ≠ .unset := fun {t k' o' rest} top =>
    h.kept hs hsound (t := t) (f := .getInsert k' o') (by simp [top]) rfl
  cases hs
  case getInsert t k' o' rest top =>
    by_cases hk : k = k'
    · subst hk
      obtain rfl : o' = o := Option.some.inj ((AList.lookup_insert _).symm.trans entry)
      exact hinserted top
    · exact hkept k o (by simpa [AList.lookup_insert_ne hk] using entry)
  case gcErase t k' keys n caller rest top =>
    by_cases hk : k = k'
    · subst hk
      simp at entry
    · exact hkept k o (by simpa [AList.lookup_erase_ne hk] using entry)
  case clearChildren => simp at entry
  all_goals exact hkept k o entry

/-- So does whoever has a `Ref`: it was taken from an entry or copied. -/
theorem Step.called_refs (hs : Step p s l s') (hsound : Sound s) (h : Called s)
    {r : Holder × Ptr} (hr : r ∈ s'.refs) : (s'.singletons r.2).future ≠ .unset := by
  have hkept : ∀ r' ∈ s.refs, (s'.singletons r'.2).future ≠ .unset := fun r' hr' =>
    hs.future_set (hsound.allocated.refs r' hr') (h.refs r' hr')
  have hgot : ∀ {t o rest}, s.stack t = .getRef o :: rest →
      (s'.singletons o).future ≠ .unset := fun {t o rest} top =>
    h.kept hs hsound (t := t) (f := .getRef o) (by simp [top]) rfl
  cases hs
  case startCopy r' _ live =>
    rcases List.mem_cons.mp hr with rfl | hold
    · exact hkept r' live
    · exact hkept r hold
  case getRef t o rest top =>
    rcases List.mem_cons.mp hr with rfl | hold
    · exact hgot top
    · exact hkept r hold
  case startDrop | dropRef => exact hkept r (List.mem_of_mem_erase hr)
  all_goals exact hkept r hr

/-- Every step keeps that what can be waited for was begun. -/
theorem Step.called (hs : Step p s l s') (hsound : Sound s) (h : Called s) : Called s' where
  entries _ _ entry := hs.called_entries hsound h entry
  refs _ hr := hs.called_refs hsound h hr
  frames := by
    intro t f hf o ho
    have htop : ∀ {t f rest}, s.stack t = f :: rest → f.called = some o →
        (s'.singletons o).future ≠ .unset := fun {t f rest} top hcalled =>
      h.kept hs hsound (t := t) (f := f) (by simp [top]) hcalled
    have hlive : ∀ {holder}, (holder, o) ∈ s.refs → (s'.singletons o).future ≠ .unset :=
      fun {holder} live => hs.future_set (hsound.allocated.refs _ live) (h.refs _ live)
    rcases hs.enters hf with hold | ⟨htid, henters⟩ | hlaunches
    · exact h.kept hs hsound hold ho
    · cases henters with
      | @getRecycle k _ _ top entry =>
          cases ho
          exact hs.future_set (hsound.allocated.children k o entry) (h.entries k o entry)
      | getInsert top =>
          cases ho
          exact hs.createFuture_set top htid
      | recycled _ top _ | inserted top _ | getRef top | waitDeferred top _ =>
          cases ho
          exact htop top rfl
      | startValue _ live | createValue _ _ live =>
          cases ho
          exact hlive live
      | _ => cases ho
    · cases hlaunches with
      | creating label top _ =>
          cases ho
          subst label
          exact hs.createFuture_set top rfl

/-- The body of a creation shrinks by the call that its thread makes. -/
theorem Step.body_cases (hs : Step p s l s') {v : Ptr} (hv : v < s.bound) :
    (s'.singletons v).body = (s.singletons v).body ∨
      ∃ t call rest, s.stack t = .creating v :: rest ∧
        (s.singletons v).body = call :: (s'.singletons v).body ∧
        ∀ k, call = .get k → s'.stack t = .getLock k :: .creating v :: rest := by
  have hmodify : ∀ {o x'}, s'.singletons = Function.update s.singletons o x' →
      x'.body = (s.singletons o).body → (s'.singletons v).body = (s.singletons v).body := by
    intro o x' heq hx
    rw [heq]
    by_cases hvo : v = o
    · subst hvo
      rw [Function.update_self, hx]
    · rw [Function.update_of_ne hvo]
  cases hs
  case getMissing => exact .inl (by simp [hv.ne])
  case createGet t o k body rest top call =>
    by_cases hvo : v = o
    · subst hvo
      refine .inr ⟨t, .get k, rest, top, by simp [call], ?_⟩
      rintro k' ⟨⟩
      simp
    · exact .inl (by simp [hvo])
  case createValue t v' k o body rest top call _ _ =>
    by_cases hvo : v = v'
    · subst hvo
      refine .inr ⟨t, .value k, rest, top, by simp [call], ?_⟩
      rintro k' ⟨⟩
    · exact .inl (by simp [hvo])
  case startReleaseLast | joinLast =>
    exact .inl (hmodify (Function.update_idem _ _ _) (by simp))
  all_goals first
    | exact .inl rfl
    | exact .inl (hmodify rfl rfl)

/-- A creation that is running goes on, or is done and its thread leaves it. -/
theorem Step.running_cases (hs : Step p s l s') (hsound : Sound s) (h : Creations p s) {v : Ptr}
    (hv : v < s.bound) (hrunning : (s.singletons v).future = .running) :
    (s'.singletons v).future = .running ∨
      ∃ rest, s.stack l.tid = .creating v :: rest ∧ s'.stack l.tid = rest := by
  have hmodify : ∀ {o x'}, s'.singletons = Function.update s.singletons o x' →
      x'.future = (s.singletons o).future → (s'.singletons v).future = .running := by
    intro o x' heq hx
    rw [heq]
    by_cases hvo : v = o
    · subst hvo
      rw [Function.update_self, hx, hrunning]
    · rw [Function.update_of_ne hvo, hrunning]
  cases hs
  case getMissing => exact .inl (by simp [hv.ne, hrunning])
  case getCreate t k o rest top =>
    have hne : v ≠ o := by
      rintro rfl
      cases hrunning.symm.trans (h.uncalled v (hsound.not_called top))
    exact .inl (by simp [hne, hrunning])
  case waitDeferred t o keep rest top deferred =>
    by_cases hvo : v = o
    · subst hvo
      exact .inl (by simp)
    · exact .inl (by simp [hvo, hrunning])
  case createDone t o rest top done =>
    by_cases hvo : v = o
    · subst hvo
      exact .inr ⟨rest, top, by simp [Label.tid]⟩
    · exact .inl (by simp [hvo, hrunning])
  case startReleaseLast | joinLast =>
    exact .inl (hmodify (Function.update_idem _ _ _) (by simp))
  all_goals first
    | exact .inl hrunning
    | exact .inl (hmodify rfl rfl)

/-- A thread begins a creation that nobody has begun. -/
theorem Step.creating_cases (hs : Step p s l s') (hsound : Sound s) {t : Tid} {v : Ptr}
    (hf : .creating v ∈ s'.stack t) : .creating v ∈ s.stack t ∨
      (v < s.bound ∧ (s'.singletons v).future = .running ∧
        (s'.singletons v).body = (s.singletons v).body) ∧
        (t = l.tid ∧ (s.singletons v).future = .deferred ∨
          t = .task v ∧ (s.singletons v).createCalls = 0) := by
  by_cases hold : .creating v ∈ s.stack t
  · exact .inl hold
  right
  rcases hs.enters hf with hin | ⟨htid, henters⟩ | hlaunches
  · exact absurd hin hold
  · cases henters with
    | waitDeferred top deferred =>
        refine ⟨⟨hsound.allocated.frames t _ (by rw [top]; exact .head _) v (.head _), ?_⟩,
          .inl ⟨htid, deferred⟩⟩
        cases hs
        case waitDeferred top' _ =>
          subst htid
          cases top.symm.trans top'
          simp
        case waitReady top' ready =>
          subst htid
          cases top.symm.trans top'
          cases deferred.symm.trans ready
        all_goals
          subst htid
          first
          | cases top.symm.trans ‹s.stack _ = []›
          | cases top.symm.trans ‹s.stack _ = _›
  · cases hlaunches with
    | @creating _ t' k rest label top called =>
        refine ⟨⟨hsound.allocated.frames t' _ (by rw [top]; exact .head _) v (.head _), ?_⟩,
          .inr ⟨rfl, hsound.not_called top⟩⟩
        subst label
        clear called
        cases hs
        case getCreate top' =>
          cases top.symm.trans top'
          have hne : .task v ≠ t' := by
            rintro rfl
            simp [hsound.task_idle top] at top
          by_cases hasync : p.async k
          · simp [hasync]
          · exact absurd (by simpa [hasync, hne] using hf) hold
        all_goals
          first
          | cases top.symm.trans ‹s.stack _ = []›
          | cases top.symm.trans ‹s.stack _ = _›

/-- A running creation has what it has got as long as it runs. -/
theorem Step.value_refs (hs : Step p s l s') (hphase : InPhase s) {t : Tid} {v o : Ptr}
    (hf : .creating v ∈ s.stack t) (hr : (.value v, o) ∈ s.refs) : (.value v, o) ∈ s'.refs := by
  cases hs
  case startCopy | getRef => exact .tail _ hr
  case startDrop => exact (List.mem_erase_of_ne (by simp)).mpr hr
  case dropRef top _ =>
    exact (hphase.not_both hf (by rw [top]; exact .head _) ⟨rfl, rfl⟩ rfl).elim
  all_goals exact hr

/-- The `Ref` that a creation gets is the value's. -/
theorem Step.getRef_refs (hs : Step p s l s') {t : Tid} {v o : Ptr} {rest : List (Frame K)}
    (top : s.stack t = .getRef o :: .creating v :: rest) (htid : t = l.tid) :
    (.value v, o) ∈ s'.refs := by
  cases hs
  case getRef top' =>
    subst htid
    cases top.symm.trans top'
    simp [holderOf]
  all_goals
    subst htid
    first
    | cases top.symm.trans ‹s.stack _ = []›
    | cases top.symm.trans ‹s.stack _ = _›

/-- A `get` of a creation goes on, until the creation has its `Ref`. -/
theorem Step.asks_goes (hs : Step p s l s') (hsound : Sound s) {f : Frame K} {v : Ptr} {k : K}
    {rest : List (Frame K)} (top : s.stack l.tid = f :: .creating v :: rest)
    (hasks : f.asks s = some k) : Has s' l.tid v k := by
  have hkey : ∀ o ∈ f.pointers, (s'.singletons o).key = (s.singletons o).key := fun o ho =>
    hs.key_eq (hsound.allocated.frames l.tid f (by simp [top]) o ho)
  obtain ⟨frames, hstack, hleaves⟩ | ⟨frames, -, hpushes⟩ := hs.top_moves top
  · cases hleaves with
    | getLock | getFound | getMissing | getCreate => exact .inr ⟨_, _, hstack, hasks⟩
    | @getRecycle k' o =>
        refine .inr ⟨_, _, hstack, ?_⟩
        cases hasks
        simp only [Frame.asks, hkey o (.head _), hsound.key_of_top (.inl top)]
    | @getInsert k' o =>
        refine .inr ⟨_, _, hstack, ?_⟩
        cases hasks
        simp only [Frame.asks, hkey o (.head _), hsound.key_of_top (.inr top)]
    | @getUnlock o =>
        refine .inr ⟨_, _, hstack, ?_⟩
        cases hasks
        simp only [Frame.asks, hkey o (.head _)]
    | @getRef o =>
        refine .inl ⟨o, hs.getRef_refs top rfl, ?_⟩
        rw [hkey o (.head _)]
        exact Option.some.inj hasks
    | _ => cases hasks
  · cases hpushes <;> cases hasks

/-- What a thread asks for does not change with the storage. -/
theorem Frame.asks_eq (hs : Step p s l s') {f : Frame K} (hf : ∀ o ∈ f.pointers, o < s.bound) :
    f.asks s' = f.asks s := by
  cases f with
  | getUnlock o | getRef o => simp [Frame.asks, hs.key_eq (hf o (.head _))]
  | _ => rfl

/-- What a creation has got it keeps. -/
theorem Step.has (hs : Step p s l s') (hsound : Sound s) (hphase : InPhase s) {t : Tid} {v : Ptr}
    {k : K} (hf : .creating v ∈ s.stack t) (h : Has s t v k) : Has s' t v k := by
  rcases h with ⟨o, hr, hkey⟩ | ⟨f, rest, top, hasks⟩
  · exact .inl ⟨o, hs.value_refs hphase hf hr, (hs.key_eq (hsound.allocated.refs _ hr)).trans hkey⟩
  · by_cases ht : t = l.tid
    · subst ht
      exact hs.asks_goes hsound top hasks
    · have hstack : s'.stack t = s.stack t := by
        cases hs.moves with
        | stays _ _ eq => rw [eq]
        | starts label _ eq =>
            rw [eq, Function.update_of_ne]
            rintro rfl
            exact ht (by rw [label, Label.tid])
        | pushes tid _ _ eq | leaves tid _ _ eq =>
            rw [eq, Function.update_of_ne (tid ▸ ht)]
        | launches tid top' eq =>
            rw [eq, Function.update_of_ne (tid ▸ ht), Function.update_of_ne]
            rintro rfl
            cases (hsound.task_idle top').symm.trans top
      refine .inr ⟨f, rest, hstack.trans top, ?_⟩
      rw [Frame.asks_eq hs (hsound.allocated.frames t f (by simp [top])), hasks]

/-- The creation of a value has the `Ref`s it has got so far. -/
theorem Step.gotten (hs : Step p s l s') (hsound : Sound s) (hphase : InPhase s)
    (h : Creations p s) {t : Tid} {v : Ptr} (hf : .creating v ∈ s'.stack t) : Gotten p s' t v := by
  rcases hs.creating_cases hsound hf with hold | ⟨⟨hv, -, hbody⟩, hfuture⟩
  · have hv : v < s.bound := hsound.allocated.frames t _ hold v (.head _)
    obtain ⟨done, hcreate, hhas⟩ := h.gotten t v hold
    rcases hs.body_cases hv with hbody | ⟨t', call, rest, top, hbody, hlocks⟩
    · refine ⟨done, by rw [hs.key_eq hv, hbody, hcreate], fun k hk => ?_⟩
      exact hs.has hsound hphase hold (hhas k hk)
    · obtain rfl : t' = t := h.alone t' t v (by simp [top]) hold
      refine ⟨done ++ [call], by rw [hs.key_eq hv, hcreate, hbody]; simp, fun k hk => ?_⟩
      rcases List.mem_append.mp hk with hin | hlast
      · exact hs.has hsound hphase hold (hhas k hin)
      · exact .inr ⟨_, rest, hlocks k (List.mem_singleton.mp hlast).symm, rfl⟩
  · have hfresh : (s.singletons v).future = .unset ∨ (s.singletons v).future = .deferred :=
      hfuture.symm.imp (fun h' => h.uncalled v h'.2) And.right
    refine ⟨[], ?_, fun k hk => by cases hk⟩
    rw [hs.key_eq hv, hbody, h.fresh v hv hfresh, List.nil_append]

/-- What `create` was not called for has no future. -/
theorem Step.uncalled (hs : Step p s l s') (h : Creations p s) {o : Ptr}
    (hcalls : (s'.singletons o).createCalls = 0) : (s'.singletons o).future = .unset := by
  cases hs.object o with
  | same eq =>
      rw [eq] at hcalls ⊢
      exact h.uncalled o hcalls
  | new _ _ _ _ eq => rw [eq]
  | alters eq step =>
      rw [eq] at hcalls ⊢
      cases step with
      | createFuture => cases hcalls
      | @createDone t rest top =>
          cases (h.started t o (by simp [top])).symm.trans (h.uncalled o hcalls)
      | waitDeferred top deferred => cases deferred.symm.trans (h.uncalled o hcalls)
      | _ => exact h.uncalled o hcalls

/-- Before its creation starts a value has all of it ahead. -/
theorem Step.fresh (hs : Step p s l s') (hsound : Sound s) (h : Creations p s) {v : Ptr}
    (hv : v < s'.bound)
    (hfuture : (s'.singletons v).future = .unset ∨ (s'.singletons v).future = .deferred) :
    (s'.singletons v).body = p.create (s'.singletons v).key := by
  by_cases hold : v < s.bound
  · cases hs.object v with
    | same eq =>
        rw [eq] at hfuture ⊢
        exact h.fresh v hold hfuture
    | new _ _ fresh _ _ => exact absurd fresh hold.ne
    | alters eq step =>
        rw [eq] at hfuture ⊢
        cases step with
        | createFuture _ top =>
            exact h.fresh v hold (.inl (h.uncalled v (hsound.not_called top)))
        | createDone | waitDeferred => simp at hfuture
        | @createCall t _ _ _ top =>
            have hrunning := h.started t v (by simp [top])
            simp [hrunning] at hfuture
        | _ => exact h.fresh v hold hfuture
  · cases hs
    case getMissing t k rest top _ =>
      obtain rfl : v = s.bound := Nat.eq_of_lt_succ_of_not_lt hv hold
      simp
    all_goals exact absurd hv hold

/-- One thread creates a value. -/
theorem Step.created_alone (hs : Step p s l s') (hsound : Sound s) (h : Creations p s)
    {t t' : Tid} {v : Ptr} (hf : .creating v ∈ s'.stack t) (hf' : .creating v ∈ s'.stack t') :
    t = t' := by
  have hnew : ∀ {t'' : Tid}, .creating v ∈ s.stack t'' →
      (t = l.tid ∧ (s.singletons v).future = .deferred ∨
        t = .task v ∧ (s.singletons v).createCalls = 0) ∨
      (t' = l.tid ∧ (s.singletons v).future = .deferred ∨
        t' = .task v ∧ (s.singletons v).createCalls = 0) → False := by
    intro t'' hold hfuture
    have hrunning := h.started t'' v hold
    rcases hfuture with (⟨-, hd⟩ | ⟨-, hu⟩) | (⟨-, hd⟩ | ⟨-, hu⟩)
    · cases hrunning.symm.trans hd
    · cases hrunning.symm.trans (h.uncalled v hu)
    · cases hrunning.symm.trans hd
    · cases hrunning.symm.trans (h.uncalled v hu)
  rcases hs.creating_cases hsound hf with hold | ⟨-, hfuture⟩
  · rcases hs.creating_cases hsound hf' with hold' | ⟨-, hfuture'⟩
    · exact h.alone t t' v hold hold'
    · exact (hnew hold (.inr hfuture')).elim
  · rcases hs.creating_cases hsound hf' with hold' | ⟨-, hfuture'⟩
    · exact (hnew hold' (.inl hfuture)).elim
    · rcases hfuture with ⟨rfl, hd⟩ | ⟨rfl, hu⟩ <;> rcases hfuture' with ⟨rfl, hd'⟩ | ⟨rfl, hu'⟩
      · rfl
      · cases hd.symm.trans (h.uncalled v hu')
      · cases hd'.symm.trans (h.uncalled v hu)
      · rfl

/-- Its future is running meanwhile. -/
theorem Step.created_running (hs : Step p s l s') (hsound : Sound s)
    (hwf : WellFounded p.Needs) (h : Creations p s) {t : Tid} {v : Ptr}
    (hf : .creating v ∈ s'.stack t) : (s'.singletons v).future = .running := by
  rcases hs.creating_cases hsound hf with hold | ⟨⟨-, hrunning, -⟩, -⟩
  · have hv : v < s.bound := hsound.allocated.frames t _ hold v (.head _)
    refine (hs.running_cases hsound h hv (h.started t v hold)).resolve_right ?_
    rintro ⟨rest, top, hstack⟩
    obtain rfl : l.tid = t := h.alone _ _ v (by simp [top]) hold
    rw [hstack] at hf
    -- below its own creation a type would need itself
    have hnested := h.nested l.tid
    rw [top] at hnested
    have hself := (List.pairwise_cons.mp hnested).1 _ hf v v rfl rfl
    exact hwf.transGen.asymmetric _ _ hself hself
  · exact hrunning

/-- What a thread that creates begins to wait for is of a smaller type. -/
theorem Step.nested (hs : Step p s l s') (hsound : Sound s) (hproper : p.Proper)
    (h : Creations p s) {key : Ptr → K} (hkey : ∀ o < s.bound, key o = (s.singletons o).key)
    (t : Tid) : Nested p key (s'.stack t) := by
  have hkeys : ∀ t, Nested p key (s.stack t) := fun t => by
    refine (h.nested t).imp_of_mem fun {f g} hf hg hfg o v ho hv => ?_
    have hobound : o < s.bound := by
      refine hsound.allocated.frames t f hf o ?_
      cases f <;> simp_all [Frame.awaits, Frame.pointers]
    have hvbound : v < s.bound := hsound.allocated.frames t g hg v (by simp [hv, Frame.pointers])
    rw [hkey o hobound, hkey v hvbound]
    exact hfg o v ho hv
  have hgoto : ∀ {t frames}, Nested p key frames →
      ∀ t', Nested p key (Function.update s.stack t frames t') :=
    forall_update (P := fun _ => Nested p key) hkeys
  -- a frame that waits for nothing is above anything
  have hcons : ∀ {f : Frame K} {frames}, f.awaits = none → Nested p key frames →
      Nested p key (f :: frames) := fun {f frames} hf hframes =>
    List.pairwise_cons.mpr ⟨fun g _ o v ho => by simp [hf] at ho, hframes⟩
  have hall : ∀ {t f rest}, s.stack t = f :: rest → Nested p key (f :: rest) :=
    fun {t f rest} top => top ▸ hkeys t
  have hrest : ∀ {t f rest}, s.stack t = f :: rest → Nested p key rest :=
    fun {t f rest} top => (List.pairwise_cons.mp (hall top)).2
  have hone : ∀ {f : Frame K}, Nested p key [f] := List.pairwise_singleton ..
  cases hs
  case startMove | startCopy | startRelease => exact hkeys t
  case startGet | startValue | startReleaseLast | startCollect | startClear => exact hgoto hone t
  case startDrop =>
    refine hgoto ?_ t
    split
    · exact List.Pairwise.nil
    · exact hone
  case dropRef top _ =>
    refine hgoto ?_ t
    split
    · exact hall top
    · exact hcons rfl (hall top)
  case getCreate top =>
    refine forall_update (P := fun _ => Nested p _) ?_ (hcons rfl (hrest top)) t
    simp only [State.createFuture]
    split
    · exact hgoto hone
    · exact hkeys
  case createGet top _ => exact hgoto (hcons rfl (hall top)) t
  case createValue t' v k o body rest top call live hk =>
    refine hgoto (List.pairwise_cons.mpr ⟨?_, hall top⟩) t
    have hv : v < s.bound := hsound.allocated.frames t' (.creating v) (by simp [top]) v (.head _)
    have ho : o < s.bound := hsound.allocated.refs _ live
    obtain ⟨done, hcreate, -⟩ := h.gotten t' v (by simp [top])
    have hget : .get k ∈ done := hproper _ done k body (by rw [hcreate, call])
    have hneeds : p.Needs (s.singletons o).key (s.singletons v).key :=
      ⟨.get k, by rw [hcreate]; exact List.mem_append_left _ hget, by simp [Call.needs, hk]⟩
    rw [← hkey o ho, ← hkey v hv] at hneeds
    rintro g hg o' v' ⟨⟩ hv'
    rcases List.mem_cons.mp hg with rfl | hbelow
    · cases hv'
      exact .single hneeds
    · exact .head hneeds ((List.pairwise_cons.mp (hall top)).1 g hbelow v v' rfl hv')
  case waitDeferred t' o keep rest top _ =>
    refine hgoto (List.pairwise_cons.mpr ⟨?_, hall top⟩) t
    rintro g hg o' v' ⟨⟩ hv'
    rcases List.mem_cons.mp hg with rfl | hbelow
    · cases hv'
    · exact (List.pairwise_cons.mp (hall top)).1 g hbelow o v' rfl hv'
  case gcDelete top _ _ => exact hgoto (hcons rfl (hcons rfl (hrest top))) t
  case getRef top | unrefUnlock top | joinPinned top _ _ | dropDone top _ | gcUnlock top |
      clearUnlock top | createDone top _ | waitReady top _ =>
    exact hgoto (hrest top) t
  all_goals exact hgoto (hcons rfl (hrest ‹s.stack _ = _›)) t

/-- **Creations.**  Every step of a history in phases keeps what creations wait for. -/
theorem Step.creations (hs : Step p s l s') (hsound : Sound s) (hphase : InPhase s)
    (hproper : p.Proper) (hwf : WellFounded p.Needs) (h : Creations p s) : Creations p s' where
  uncalled _ hcalls := hs.uncalled h hcalls
  fresh _ hv hfuture := hs.fresh hsound h hv hfuture
  started _ _ hf := hs.created_running hsound hwf h hf
  alone _ _ _ hf hf' := hs.created_alone hsound h hf hf'
  nested t := hs.nested hsound hproper h (fun _ ho => hs.key_eq ho) t
  gotten _ _ hf := hs.gotten hsound hphase h hf

/-- Creations are as they should be in every history in phases. -/
theorem Reach.creations [Inhabited K] (h : Runs.Reach (step p) Phased initial s)
    (hproper : p.Proper) (hwf : WellFounded p.Needs) : Called s ∧ Creations p s := by
  refine h.along (I := fun s => Called s ∧ Creations p s) ⟨?_, ?_⟩ ?_
  · constructor <;> simp [initial]
  · constructor <;> simp [initial, Nested]
  · rintro s l s' hs ⟨hcalled, hcreations⟩ - hstep
    obtain ⟨hledger, hphase⟩ := Reach.ledger hs
    have hs' := step_cases hstep
    exact ⟨hs'.called hledger.sound hcalled,
      hs'.creations hledger.sound hphase hproper hwf hcreations⟩

end SingletonStorage
