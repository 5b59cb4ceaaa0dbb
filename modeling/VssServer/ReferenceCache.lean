import VssServer.Collection

/-!
# A sequential storage is a reference cache

In a sequential history the storage does what its users think of: a type keeps
its instance until `clear` runs, or until a collection runs at a moment when
nothing but values destroyed by that collection refers to it, and the next
`get` creates exactly one instance instead.  The operation followed here is
`get`; its creations may call `get` in other threads meanwhile.

* `Completes.get_returns`: a `get` returns the entry, or the one instance it has created.
* `Completes.entry_iff`: an operation keeps an entry unless it removes it.
* `reference_cache`: counters, disposals and instances between the operations of a history.
-/

namespace SingletonStorage

variable {K : Type}

/-- Frames of `get`. -/
def Frame.gets : Frame K → Bool
  | .getLock _ | .getFind _ | .getRecycle _ _ | .getCreate _ _ => true
  | .getInsert _ _ | .getUnlock _ | .getRef _ => true
  | _ => false

/-- A `get` of `k` that has not determined its object or not made it the entry. -/
def Frame.seeks [DecidableEq K] (k : K) : Frame K → Bool
  | .getLock k' | .getFind k' | .getCreate k' _ | .getInsert k' _ => k' = k
  | _ => false

/-- A `get` of `k` that is about to return the entry `o`. -/
def Frame.carries [DecidableEq K] (k : K) (o : Ptr) : Frame K → Bool
  | .getRecycle k' o' => k' = k ∧ o' = o
  | .getUnlock o' | .getRef o' => o' = o
  | _ => false

/-- A client calls `get` from outside of the storage, a creation from its body. -/
def Callers (s : State K) : Prop :=
  ∀ t f rest, s.stack t = f :: rest → f.gets →
    (rest = [] ∧ ∃ n, t = .client n) ∨ ∃ v below, rest = .creating v :: below

/-- Threads that get collect nothing. -/
theorem Getting.noCollection {s : State K} (h : Getting s) : NoCollection s :=
  fun t f hf => (h t f hf).2

variable [DecidableEq K]

/-- How many `Ref`s to `o` client code owns. -/
def clientRefs (s : State K) (o : Ptr) : Nat :=
  s.refs.count (.client, o)

/-- A completed `get` of `k` made one `Ref` for its client, to the entry `o`. -/
structure Returns (s s' : State K) (k : K) (o : Ptr) : Prop where
  entry : s'.children.lookup k = some o
  refs : ∀ o', clientRefs s' o' = clientRefs s o' + if o' = o then 1 else 0

/-- The object `o` is the only instance of `k` created between two states. -/
structure Creates (s s' : State K) (k : K) (o : Ptr) : Prop where
  fresh : s.bound ≤ o ∧ o < s'.bound
  key : (s'.singletons o).key = k
  once : ∀ o', s.bound ≤ o' → o' < s'.bound → (s'.singletons o').key = k → o' = o

/-- No instance of `k` is created between two states. -/
def CreatesNone (s s' : State K) (k : K) : Prop :=
  ∀ o, s.bound ≤ o → o < s'.bound → (s'.singletons o).key ≠ k

/-- An operation of a sequential history, with the idle states around it. -/
structure Done (K : Type) where
  op : Op K
  before : State K
  after : State K

/-- The operation takes the entry of `o` away: it is a `clear`, or a
`garbageCollect` at a moment when no `Ref` to `o` survives. -/
def Done.Removes (e : Done K) (o : Ptr) : Prop :=
  e.op = .clear ∨ e.op = .garbageCollect ∧ ¬Survives e.before e.after o

/-- A sequential history: operations of clients, each complete before the next. -/
inductive History (p : Program K) : State K → List (Done K) → State K → Prop
  | nil {s} : History p s [] s
  | cons {s m s' n op es} (first : Completes p s n op m) (later : History p m es s') :
      History p s (⟨op, s, m⟩ :: es) s'

/-- How far client `n` has come with the `get` of `k` it began in `s₀`. -/
inductive Stage (s₀ : State K) (n : Nat) (k : K) (s : State K) : Prop
  | seeking {f} (stack : s.stack (.client n) = [f]) (seeks : f.seeks k)
      (refs : ∀ o, clientRefs s o = clientRefs s₀ o)
  | carrying {f o} (stack : s.stack (.client n) = [f]) (carries : f.carries k o)
      (entry : s.children.lookup k = some o) (refs : ∀ o, clientRefs s o = clientRefs s₀ o)
  | returned {o} (stack : s.stack (.client n) = []) (returns : Returns s₀ s k o)

/-- Client `n` is within a `get` of `k` that began in `s₀`. -/
structure Fetching (s₀ : State K) (n : Nat) (k : K) (s : State K) : Prop where
  getting : Getting s
  alone : ∀ m, m ≠ n → s.stack (.client m) = []
  callers : Callers s
  entries : EntriesKept s₀ s
  attached : ∀ o, s₀.bound ≤ o → o < s.bound → (s.singletons o).Attached
  stage : Stage s₀ n k s

variable {p : Program K} {s₀ s s' : State K} {l : Label K} {n : Nat} {k : K}

/-- Every `get` is called by a client or by a creation. -/
theorem Step.callers (hs : Step p s l s') (hshape : Shaped s) (h : Callers s) : Callers s' := by
  intro t f rest top hgets
  have hbelow : ∀ {t g frames}, s.stack t = g :: frames → ∀ f ∈ frames, f.gets = false := by
    intro t g frames top f hf
    have hfbelow := (hshape.of_top top).below f hf
    cases f <;> first | rfl | simp [Frame.deletes, Frame.waits] at hfbelow
  have hother : ∀ {t₀ frames}, s'.stack = Function.update s.stack t₀ frames → t ≠ t₀ →
      s.stack t = f :: rest := by
    intro t₀ frames hstack ht
    rwa [hstack, Function.update_of_ne ht] at top
  cases hs.moves with
  | stays _ _ eq => exact h t f rest (eq ▸ top) hgets
  | @starts n _ g _ _ eq =>
      by_cases ht : t = .client n
      · subst ht
        rw [eq, Function.update_self] at top
        cases top
        exact .inl ⟨rfl, n, rfl⟩
      · exact h t f rest (hother eq ht) hgets
  | @pushes t₀ g below frames _ _ hpushes eq =>
      by_cases ht : t = t₀
      · subst ht
        rw [eq, Function.update_self] at top
        cases hpushes with
        | @createGet v k =>
            cases top
            exact .inr ⟨v, below, rfl⟩
        | _ =>
            cases top
            cases hgets
      · exact h t f rest (hother eq ht) hgets
  | @leaves t₀ g below frames _ top' hleaves eq =>
      by_cases ht : t = t₀
      · subst ht
        rw [eq, Function.update_self] at top
        cases hleaves with
        | getLock | getFound | getMissing | getRecycle | getCreate | getInsert | getUnlock =>
            cases top
            exact h t _ _ top' rfl
        | getRef | unrefUnlock | joinPinned | dropDone | gcUnlock | clearUnlock | createDone
          | waitReady =>
            have hmem : f ∈ below := by
              rw [List.nil_append] at top
              exact top ▸ .head _
            cases (hbelow top' f hmem).symm.trans hgets
        | _ =>
            cases top
            cases hgets
      · exact h t f rest (hother eq ht) hgets
  | @launches t₀ k o below _ top' eq =>
      by_cases ht : t = t₀
      · subst ht
        rw [eq, Function.update_self] at top
        cases top
        exact h t _ _ top' rfl
      · rw [eq, Function.update_of_ne ht] at top
        by_cases ho : t = .task o
        · subst ho
          rw [Function.update_self] at top
          cases top
          cases hgets
        · rw [Function.update_of_ne ho] at top
          exact h t f rest top hgets

/-- This holds in every history. -/
theorem Reach.callers [Inhabited K] {ok : State K → Label K → Prop}
    (h : Runs.Reach (step p) ok initial s) : Callers s := by
  have hboth : Sound s ∧ Callers s :=
    h.invariant (I := fun s => Sound s ∧ Callers s)
      ⟨sound_initial, fun _ _ _ top => by cases top⟩
      fun _ _ _ ⟨hsound, hcallers⟩ _ hstep =>
        ⟨(step_cases hstep).sound hsound, (step_cases hstep).callers hsound.shaped hcallers⟩
  exact hboth.2

/-- A thread that takes a step within an operation is inside the storage. -/
theorem Step.busy (hs : Step p s l s') (hl : Running s l) : s.stack l.tid ≠ [] := by
  cases hs.moves with
  | stays label _ _ | starts label _ _ => exact absurd label (hl _ _)
  | pushes tid top _ _ | leaves tid top _ _ | launches tid top _ =>
      rw [← tid, top]
      exact List.cons_ne_nil _ _

/-- The frames of a client change only in steps of its own. -/
theorem Step.client_stack (hs : Step p s l s') (ht : l.tid ≠ .client n) :
    s'.stack (.client n) = s.stack (.client n) :=
  (hs.stack_other ht.symm).resolve_right (by simp)

/-- What is attached stays so while nobody releases or collects, and what is
created then is attached. -/
theorem Step.attached_kept (hs : Step p s l s') (hg : Getting s) (hl : Running s l) {o : Ptr}
    (ho : o < s'.bound) (h : o < s.bound → (s.singletons o).Attached) :
    (s'.singletons o).Attached := by
  have htop : ∀ {t f rest}, s.stack t = f :: rest → f.destroys = false ∧ f.collects = false :=
    fun {t f rest} top => hg t f (by simp [top])
  by_cases hlt : o < s.bound
  · have hold := h hlt
    cases hs.object o with
    | same eq => rwa [eq]
    | new _ _ fresh _ _ => exact absurd fresh hlt.ne
    | alters eq step =>
        rw [eq]
        cases step with
        | unrefDelete _ top | gcDelete _ top _ _ | detach _ top _ =>
            simpa [Frame.destroys, Frame.collects] using htop top
        | _ => exact hold
  · cases hs with
    | getMissing =>
        obtain rfl : o = s.bound := (Nat.lt_succ_iff_lt_or_eq.mp ho).resolve_left hlt
        exact ⟨by simp, by simp⟩
    | _ => exact absurd ho hlt

/-- Client code gets a `Ref` at the end of a `get` of its own. -/
theorem Step.clientRefs_cases (hs : Step p s l s') (hg : Getting s) (hcallers : Callers s)
    (hl : Running s l) :
    (∃ n o, l = .next (.client n) ∧ s.stack (.client n) = [.getRef o] ∧
      ∀ o', clientRefs s' o' = clientRefs s o' + if o' = o then 1 else 0) ∨
    (∀ n o, s.stack (.client n) = [.getRef o] → l.tid ≠ .client n) ∧
      ∀ o', clientRefs s' o' = clientRefs s o' := by
  have htop : ∀ {t f rest}, s.stack t = f :: rest → f.destroys = false ∧ f.collects = false :=
    fun {t f rest} top => hg t f (by simp [top])
  cases hs
  case getRef t o rest top =>
    rcases hcallers t _ _ top rfl with ⟨rfl, n, rfl⟩ | ⟨v, below, rfl⟩
    · refine .inl ⟨n, o, rfl, top, fun o' => ?_⟩
      by_cases ho : o' = o
      · simp [clientRefs, holderOf, ho]
      · simp [clientRefs, holderOf, ho, Ne.symm ho]
    · refine .inr ⟨fun n o' top' ht => ?_, fun o' => by simp [clientRefs, holderOf]⟩
      cases ht
      simp [top] at top'
  case dropRef top _ => simpa [Frame.destroys] using htop top
  all_goals first
    | exact absurd rfl (hl _ _)
    | refine .inr ⟨fun n o top' ht => ?_, fun _ => rfl⟩
      cases ht
      cases top'.symm.trans ‹s.stack _ = _›

/-- The steps of the client itself take its `get` from one stage to the next. -/
theorem Step.own_stage (hs : Step p s l s') (hsound : Sound s) (hl : Running s l)
    (ht : l.tid = .client n) (h : Fetching s₀ n k s) : Stage s₀ n k s' := by
  have hrefs := hs.clientRefs_cases h.getting h.callers hl
  have hentries := hs.entriesKept hsound h.getting.noCollection
  cases h.stage with
  | returned stack _ => exact absurd (ht ▸ stack) (hs.busy hl)
  | @seeking f stack seeks refs =>
    have top : s.stack l.tid = [f] := ht ▸ stack
    have hsame : ∀ o, clientRefs s' o = clientRefs s₀ o := by
      rcases hrefs with ⟨m, o, rfl, top', -⟩ | ⟨-, hsame⟩
      · cases top.symm.trans top'
        cases seeks
      · exact fun o => (hsame o).trans (refs o)
    rcases hs.top_moves top with ⟨frames, hstack, hleaves⟩ | ⟨frames, -, hpushes⟩
    · rw [ht, List.append_nil] at hstack
      cases hleaves with
      | getLock | getMissing | getCreate => exact .seeking hstack seeks hsame
      | getFound entry =>
          obtain rfl := of_decide_eq_true seeks
          exact .carrying hstack (by simp [Frame.carries]) (hentries _ _ entry) hsame
      | getInsert entry =>
          obtain rfl := of_decide_eq_true seeks
          exact .carrying hstack (by simp [Frame.carries]) entry hsame
      | _ => cases seeks
    · cases hpushes <;> cases seeks
  | @carrying f o stack carries entry refs =>
    have top : s.stack l.tid = [f] := ht ▸ stack
    have hentry := hentries _ _ entry
    have hsame : (∀ o, f ≠ .getRef o) → ∀ o, clientRefs s' o = clientRefs s₀ o := fun hf => by
      rcases hrefs with ⟨m, o, rfl, top', -⟩ | ⟨-, hsame⟩
      · cases top.symm.trans top'
        exact absurd rfl (hf _)
      · exact fun o => (hsame o).trans (refs o)
    rcases hs.top_moves top with ⟨frames, hstack, hleaves⟩ | ⟨frames, -, hpushes⟩
    · rw [ht, List.append_nil] at hstack
      cases hleaves with
      | getRecycle =>
          have carries := of_decide_eq_true carries
          exact .carrying hstack (by simp [Frame.carries, carries]) hentry (hsame nofun)
      | getUnlock => exact .carrying hstack carries hentry (hsame nofun)
      | getRef =>
          obtain rfl := of_decide_eq_true carries
          refine .returned hstack ⟨hentry, fun o' => ?_⟩
          rcases hrefs with ⟨m, o'', rfl, top', hrefs⟩ | ⟨hnone, -⟩
          · cases top.symm.trans top'
            rw [hrefs, refs]
          · exact absurd ht (hnone n _ stack)
      | _ => cases carries
    · cases hpushes <;> cases carries

/-- Every step of a `get` keeps what it has found so far. -/
theorem Step.fetching (hs : Step p s l s') (hsound : Sound s) (hl : Running s l)
    (h : Fetching s₀ n k s) : Fetching s₀ n k s' where
  getting := hs.getting hl h.getting
  alone m hm := by
    have ht : l.tid ≠ .client m := fun ht => hs.busy hl (ht ▸ h.alone m hm)
    rw [hs.client_stack ht, h.alone m hm]
  callers := hs.callers hsound.shaped h.callers
  entries k o entry := hs.entriesKept hsound h.getting.noCollection k o (h.entries k o entry)
  attached o hfresh ho := hs.attached_kept h.getting hl ho (h.attached o hfresh)
  stage := by
    by_cases ht : l.tid = .client n
    · exact hs.own_stage hsound hl ht h
    · have hentries := hs.entriesKept hsound h.getting.noCollection
      have hstack := hs.client_stack ht
      have hrefs : ∀ o, clientRefs s' o = clientRefs s o := by
        rcases hs.clientRefs_cases h.getting h.callers hl with ⟨m, o, rfl, top, -⟩ | ⟨-, hsame⟩
        · have hm : m ≠ n := fun hm => ht (hm ▸ rfl)
          simp [h.alone m hm] at top
        · exact hsame
      cases h.stage with
      | seeking stack seeks refs =>
        exact .seeking (hstack.trans stack) seeks fun o => (hrefs o).trans (refs o)
      | carrying stack carries entry refs =>
        exact .carrying (hstack.trans stack) carries (hentries k _ entry)
          fun o => (hrefs o).trans (refs o)
      | returned stack returns =>
        exact .returned (hstack.trans stack)
          ⟨hentries k _ returns.entry, fun o => (hrefs o).trans (returns.refs o)⟩

/-- A `get` begins with nothing found. -/
theorem Step.start_fetching (hs : Step p s (.start n (.get k)) s') (hidle : Idle s)
    (hcallers : Callers s) (hshape : Shaped s) : Fetching s n k s' where
  callers := hs.callers hshape hcallers
  getting := by
    cases hs
    intro t f hf
    by_cases ht : t = .client n
    · subst ht
      obtain rfl : f = .getLock k := by simpa using hf
      exact ⟨rfl, rfl⟩
    · simp [ht, hidle t] at hf
  alone m hm := by
    have ht : (Label.start n (.get k)).tid ≠ .client m := by simpa [Label.tid] using hm.symm
    rw [hs.client_stack ht, hidle]
  entries _ _ entry := hs.start_children ▸ entry
  attached o hfresh ho := by
    cases hs
    exact absurd (hfresh.trans_lt ho) (lt_irrefl _)
  stage := by
    cases hs
    exact .seeking (f := .getLock k) (by simp) (by simp [Frame.seeks]) fun _ => rfl

/-- **Get.**  A completed `get` returns the entry, or the one instance it
created if there was none. -/
theorem Completes.get_returns [Inhabited K] (h₀ : Runs.Reach (step p) Sequential initial s)
    (h : Completes p s n (.get k) s') : ∃ o, Returns s s' k o ∧
      (s.children.lookup k = some o ∧ CreatesNone s s' k ∨
        s.children.lookup k = none ∧ Creates s s' k o) := by
  have hI := h.during.invariant (I := Fetching s n k) h₀ h.before
    (fun _ hs => hs.start_fetching h.before (Reach.callers h₀) (Reach.sound h₀).shaped)
    fun _ _ _ hsound _ hm hl hs => hs.fetching hsound hl hm
  have hm := hI.1
  have hsound' := Reach.sound hI.2
  obtain ⟨o, hreturns⟩ : ∃ o, Returns s s' k o := by
    cases hm.stage with
    | seeking stack => simp [h.after (.client n)] at stack
    | carrying stack => simp [h.after (.client n)] at stack
    | returned _ returns => exact ⟨_, returns⟩
  -- what the operation created is attached, so it is an entry
  have hnew : ∀ o', s.bound ≤ o' → o' < s'.bound → (s'.singletons o').key = k → o' = o := by
    rintro o' hfresh ho' rfl
    have hentry := (h.after.entry_iff hsound' ho').mpr (hm.attached o' hfresh ho')
    exact Option.some.inj (hentry.symm.trans hreturns.entry)
  refine ⟨o, hreturns, ?_⟩
  cases hentry : s.children.lookup k with
  | some o₀ =>
    have ho₀ := (Reach.sound h₀).allocated.children k o₀ hentry
    obtain rfl : o₀ = o :=
      Option.some.inj ((hm.entries k o₀ hentry).symm.trans hreturns.entry)
    exact .inl ⟨rfl, fun o' hfresh ho' hkey =>
      absurd (hfresh.trans_eq (hnew o' hfresh ho' hkey)) (not_le.mpr ho₀)⟩
  | none =>
    refine .inr ⟨rfl, ⟨?_, hsound'.allocated.children k o hreturns.entry⟩,
      hsound'.entry_key hreturns.entry, hnew⟩
    by_contra hold
    simp [h.entry_before h₀ (not_le.mp hold) hreturns.entry] at hentry

/-- **Entries.**  An operation keeps an entry unless it removes it. -/
theorem Completes.entry_iff [Inhabited K] (h₀ : Runs.Reach (step p) Sequential initial s)
    {op : Op K} (h : Completes p s n op s') {o : Ptr} (entry : s.children.lookup k = some o) :
    s'.children.lookup k = some o ↔ ¬Done.Removes ⟨op, s, s'⟩ o := by
  by_cases hcollect : op = .garbageCollect
  · subst hcollect
    rw [h.garbageCollect_entries h₀]
    simp [Done.Removes, entry]
  · by_cases hclear : op = .clear
    · subst hclear
      simp [Done.Removes, h.clear_entries h₀]
    · simp [Done.Removes, hcollect, hclear,
        h.entriesKept h₀ ⟨hcollect, hclear⟩ k o entry]

/-- A history of completed calls is sequential. -/
theorem History.reach [Inhabited K] {es : List (Done K)} (hes : History p s es s')
    (h₀ : Runs.Reach (step p) Sequential initial s) :
    Runs.Reach (step p) Sequential initial s' := by
  induction hes with
  | nil => exact h₀
  | cons first _ ih => exact ih (first.reach h₀)

/-- It forgets no object. -/
theorem History.bound_le [Inhabited K] {es : List (Done K)} (hes : History p s es s')
    (h₀ : Runs.Reach (step p) Sequential initial s) : s.bound ≤ s'.bound := by
  induction hes with
  | nil => exact le_rfl
  | cons first _ ih => exact (first.older h₀).bound.trans (ih (first.reach h₀))

/-- What is an entry after a history and existed before it was an entry all along. -/
theorem History.entry_before [Inhabited K] {es : List (Done K)} (hes : History p s es s')
    (h₀ : Runs.Reach (step p) Sequential initial s) {o : Ptr} (ho : o < s.bound)
    (entry : s'.children.lookup k = some o) : s.children.lookup k = some o := by
  induction hes with
  | nil => exact entry
  | cons first _ ih =>
    exact first.entry_before h₀ ho
      (ih (first.reach h₀) (ho.trans_le (first.older h₀).bound) entry)

/-- A history keeps an entry unless one of its operations removes it. -/
theorem History.entry_iff [Inhabited K] {es : List (Done K)} (hes : History p s es s')
    (h₀ : Runs.Reach (step p) Sequential initial s) {o : Ptr}
    (entry : s.children.lookup k = some o) :
    s'.children.lookup k = some o ↔ ∀ e ∈ es, ¬e.Removes o := by
  induction hes with
  | nil => simpa using entry
  | @cons s m s' n op es first later ih =>
    have hkept := first.entry_iff h₀ entry
    by_cases hremoves : Done.Removes ⟨op, s, m⟩ o
    · have hgone : s'.children.lookup k ≠ some o := fun hlater => by
        have ho := (Reach.sound h₀).allocated.children k o entry
        have hm := later.entry_before (first.reach h₀) (ho.trans_le (first.older h₀).bound) hlater
        exact hkept.mp hm hremoves
      simp [hgone, hremoves]
    · rw [ih (first.reach h₀) (hkept.mpr hremoves)]
      simp [hremoves]

/-- **Reference cache.**  In every state between the operations of a sequential
history: counters count the live `Ref`s, a singleton is disposed exactly if it
is an entry without `Ref`s, and a detached one is deleted exactly if it has no
`Ref`s; a `get` returns the entry of its key, or creates exactly one instance if
there is none; and two `get`s return the same instance exactly if no operation
between them removed it, and otherwise the second one, if no other `get` has
created the next instance already, creates exactly one. -/
theorem reference_cache [Inhabited K] (h : Runs.Reach (step p) Sequential initial s)
    (hidle : Idle s) :
    (∀ o, (s.singletons o).refCount = s.refs.countP (·.2 = o)) ∧
    (∀ o, o ∈ s.disposed ↔ s.children.lookup (s.singletons o).key = some o ∧
      (s.singletons o).refCount = 0) ∧
    (∀ o < s.bound, (s.singletons o).storage = false →
      ((s.singletons o).deleted = true ↔ ∀ r ∈ s.refs, r.2 ≠ o)) ∧
    (∀ n k s', Completes p s n (.get k) s' → ∃ o, Returns s s' k o ∧
      (s.children.lookup k = some o ∧ CreatesNone s s' k ∨
        s.children.lookup k = none ∧ Creates s s' k o)) ∧
    (∀ n op s', Completes p s n op s' → ∀ k o, s.children.lookup k = some o →
      (s'.children.lookup k = some o ↔ ¬Done.Removes ⟨op, s, s'⟩ o)) ∧
    ∀ n n' k o o' es s₁ s₂ s₃, Completes p s n (.get k) s₁ → Returns s s₁ k o →
      History p s₁ es s₂ → Completes p s₂ n' (.get k) s₃ → Returns s₂ s₃ k o' →
      (o' = o ↔ ∀ e ∈ es, ¬e.Removes o) ∧
      ((∃ e ∈ es, e.Removes o) → CreatesNone s₁ s₂ k → Creates s₂ s₃ k o') := by
  obtain ⟨hsound, hgone, htracked⟩ := Reach.tracked (Reach.orderly h)
  refine ⟨hsound.counted, fun o => ?_, fun o ho hdetached => ?_,
    fun n k s' hget => hget.get_returns h,
    fun n op s' hop k o entry => hop.entry_iff h entry, ?_⟩
  · constructor
    · exact fun ho => ⟨(htracked.disposed o ho).2.2, (hgone o (.inl ho)).1⟩
    · rintro ⟨entry, hzero⟩
      have ho := hsound.allocated.children _ o entry
      have hattached := (hidle.entry_iff hsound ho).mp entry
      simpa [hzero] using hidle.referenced htracked ho hattached.2
  · constructor
    · intro hdeleted r hr hro
      have hzero := hgone o (.inr (.inr (.inr hdeleted)))
      exact (hsound.counted.pos hr).ne' (hro ▸ hzero.1)
    · intro hnone
      by_contra halive
      rcases hidle.referenced htracked ho (by simpa using halive) with hcount | hdisposed
      · obtain ⟨r, hr, hro⟩ := hsound.counted.exists_ref hcount
        exact hnone r hr hro
      · simp [(htracked.disposed o hdisposed).2.1.1] at hdetached
  · intro n n' k o o' es s₁ s₂ s₃ hfirst hreturns hes hsecond hreturns'
    have h₁ := hfirst.reach h
    have h₂ := hes.reach h₁
    have ho := (Reach.sound h₁).allocated.children k o hreturns.entry
    have hkept := hes.entry_iff h₁ hreturns.entry
    obtain ⟨o'', hreturns'', hcases⟩ := hsecond.get_returns h₂
    obtain rfl : o'' = o' := Option.some.inj (hreturns''.entry.symm.trans hreturns'.entry)
    rcases hcases with ⟨entry, -⟩ | ⟨hnone, hcreates⟩
    · have hsame : o'' = o ↔ ∀ e ∈ es, ¬e.Removes o := by
        rw [← hkept, entry, Option.some_inj]
      refine ⟨hsame, fun ⟨e, he, hremoves⟩ hnew => ?_⟩
      by_cases hfresh : s₁.bound ≤ o''
      · obtain ⟨hlt, hkey, -⟩ := (hsecond.before.entry_iff_key (Reach.sound h₂)).mp entry
        exact absurd hkey (hnew o'' hfresh hlt)
      · have hold := hes.entry_before h₁ (not_le.mp hfresh) entry
        exact absurd hremoves
          (hsame.mp (Option.some.inj (hold.symm.trans hreturns.entry)) e he)
    · refine ⟨?_, fun _ _ => hcreates⟩
      rw [← hkept]
      have hlt := (ho.trans_le (hes.bound_le h₁)).trans_le hcreates.fresh.1
      simp [hnone, hlt.ne']

/-- Gets a speed and drops it, so that it is disposed. -/
def getDrop : List (Label String) :=
  .start 0 (.get "Speed") :: List.replicate 6 (.next (.client 0)) ++
    .start 0 (.drop 0) :: List.replicate 3 (.next (.client 0))

/-- The state in which the speed is disposed. -/
def dropped : State String :=
  (Runs.run (step independent) initial getDrop).getD initial

/-- The steps of a `get` that finds an entry. -/
def getEntry : List (Label String) :=
  List.replicate 5 (.next (.client 0))

/-- The state after the disposed speed was asked for again. -/
def recycled : State String :=
  (Runs.run (step independent) dropped (.start 0 (.get "Speed") :: getEntry)).getD dropped

/-- A disposed singleton is got again. -/
theorem reference_cache_recycled :
    0 ∈ dropped.disposed ∧ Completes independent dropped 0 (.get "Speed") recycled ∧
      Returns dropped recycled "Speed" 0 := by
  have hsolo : ∀ l ∈ getDrop, l.tid = .client 0 := by decide
  have hnext : ∀ l ∈ getEntry, l = .next (.client 0) := fun l => List.eq_of_mem_replicate
  have hrun : Runs.run (step independent) initial getDrop = some dropped := rfl
  have hreach := reach_of_solo (n := 0) independent_async hsolo (fun _ _ => rfl) hrun
  have hidle := idle_of_solo independent_async hsolo (fun _ _ => rfl) hrun rfl
  obtain ⟨-, hdisposed, -, hget, -⟩ := reference_cache hreach hidle
  have hrun' : Runs.run (step independent) (dropped.goto (.client 0) [.getLock "Speed"]) getEntry =
    some recycled := rfl
  have hcompletes : Completes independent dropped 0 (.get "Speed") recycled := by
    refine ⟨hidle, ⟨_, rfl, Runs.reach_of_run hrun' (Runs.runMeets_of_labels ?_)⟩,
      idle_of_solo (n := 0) independent_async ?_ (fun t ht => ?_) hrun' rfl⟩
    · rintro l hl s n op rfl
      cases hnext _ hl
    · exact fun l hl => by rw [hnext l hl]; rfl
    · simp [ht, hidle t]
  obtain ⟨o, hreturns, -⟩ := hget 0 "Speed" recycled hcompletes
  obtain rfl : 0 = o := Option.some.inj hreturns.entry
  exact ⟨(hdisposed 0).mpr ⟨rfl, rfl⟩, hcompletes, hreturns⟩

end SingletonStorage
