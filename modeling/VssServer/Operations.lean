import VssServer.Stranding
import VssServer.OneInstance

/-!
# The operations of a sequential history

In a sequential history a client begins an operation while every thread is
idle, and the next one begins when every thread is idle again.  This file
follows one operation between two such states: the rule that carries an
invariant through its steps, what the entries of an idle state are, and that
only a collection or `clear` removes any.

* `During.invariant`: the rule for one operation.
* `Completes.older`: what an operation keeps of the objects that there were.
* `Idle.entry_iff_key`: the entry of a key is its attached object.
-/

namespace SingletonStorage

variable {K : Type}

/-- The side condition of the steps within an operation. -/
def Running (_ : State K) (l : Label K) : Prop :=
  ∀ n op, l ≠ .start n op

/-- The value of a singleton was destroyed between two states, and it is the
owner of a `Ref`. -/
def DestroyedBetween (s s' : State K) (holder : Holder) : Prop :=
  ∃ v, holder = .value v ∧ (s.singletons v).valueGone = false ∧
    (s'.singletons v).valueGone = true

/-- What an operation keeps of the objects that existed when it began. -/
structure Older (s s' : State K) : Prop where
  bound : s.bound ≤ s'.bound
  key : ∀ o < s.bound, (s'.singletons o).key = (s.singletons o).key
  attached : ∀ o < s.bound, (s'.singletons o).Attached → (s.singletons o).Attached

/-- What two operations keep, one after the other. -/
theorem Older.trans {s m s' : State K} (h : Older s m) (h' : Older m s') : Older s s' where
  bound := h.bound.trans h'.bound
  key o ho := (h'.key o (ho.trans_le h.bound)).trans (h.key o ho)
  attached o ho hattached :=
    h.attached o ho (h'.attached o (ho.trans_le h.bound) hattached)

variable [DecidableEq K]

/-- A state on the way of an operation of client `n` that begins in `s₀`. -/
def During (p : Program K) (s₀ : State K) (n : Nat) (op : Op K) (s : State K) : Prop :=
  ∃ s₁, step p s₀ (.start n op) = some s₁ ∧ Runs.Reach (step p) Running s₁ s

/-- Client `n` performs an operation: it begins and ends with every thread idle. -/
structure Completes (p : Program K) (s : State K) (n : Nat) (op : Op K) (s' : State K) :
    Prop where
  before : Idle s
  during : During p s n op s'
  after : Idle s'

/-- Every entry stays. -/
def EntriesKept (s s' : State K) : Prop :=
  ∀ k o, s.children.lookup k = some o → s'.children.lookup k = some o

variable {p : Program K} {s₀ s s' : State K} {l : Label K} {n : Nat} {op : Op K}

/-- **Operation rule.**  What the first step of an operation establishes and
each of its further steps keeps holds at its end. -/
theorem During.invariant [Inhabited K] {I : State K → Prop}
    (h₀ : Runs.Reach (step p) Sequential initial s₀) (hidle : Idle s₀)
    (hstart : ∀ s₁, Step p s₀ (.start n op) s₁ → I s₁)
    (hstep : ∀ s l s', Sound s → Tracked s → I s → Running s l → Step p s l s' → I s')
    (h : During p s₀ n op s) : I s ∧ Runs.Reach (step p) Sequential initial s := by
  obtain ⟨s₁, hfirst, hrun⟩ := h
  have h₁ : Runs.Reach (step p) Sequential initial s₁ := h₀.tail (fun _ _ _ => hidle) hfirst
  refine hrun.invariant (I := fun s => I s ∧ Runs.Reach (step p) Sequential initial s)
    ⟨hstart s₁ (step_cases hfirst), h₁⟩ fun s l s' ⟨hI, hs⟩ hok hs' => ?_
  obtain ⟨hsound, -, htracked⟩ := Reach.tracked (Reach.orderly hs)
  exact ⟨hstep s l s' hsound htracked hI hok (step_cases hs'),
    hs.tail (fun n op hl => absurd hl (hok n op)) hs'⟩

/-- A call that completes goes on with a sequential history. -/
theorem Completes.reach [Inhabited K] (h₀ : Runs.Reach (step p) Sequential initial s)
    (h : Completes p s n op s') : Runs.Reach (step p) Sequential initial s' :=
  (h.during.invariant (I := fun _ => True) h₀ h.before (fun _ _ => trivial)
    fun _ _ _ _ _ _ _ _ => trivial).2

/-- No collection and no `clear` is under way. -/
def NoCollection (s : State K) : Prop :=
  ∀ t, ∀ f ∈ s.stack t, f.collects = false

/-- A collection begins with its own call only. -/
theorem Step.noCollection (hs : Step p s l s') (hl : Running s l) (h : NoCollection s) :
    NoCollection s' := by
  intro t f hf
  have htop : ∀ {t f rest}, s.stack t = f :: rest → f.collects = false :=
    fun {t f rest} top => h t f (by simp [top])
  rcases hs.enters hf with hold | ⟨-, henters⟩ | hlaunches
  · exact h t f hold
  · cases henters with
    | startCollect label | startClear label => exact absurd label (hl _ _)
    | gcLock top _ | clearLock top _ | gcNext top | gcKeys top _ | gcErased top
    | gcDeleting _ top _ _ | gcUnlock top | clearCollected top _ | clearDetach top
    | clearUnlock top => simpa [Frame.collects] using htop top
    | _ => rfl
  · cases hlaunches
    rfl

/-- Without a collection, entries are only added. -/
theorem Step.entriesKept (hs : Step p s l s') (hsound : Sound s) (hno : NoCollection s) :
    EntriesKept s s' := by
  intro k o hentry
  have htop : ∀ {t f rest}, s.stack t = f :: rest → f.collects = false :=
    fun {t f rest} top => hno t f (by simp [top])
  cases hs
  case getInsert t k' o' rest top =>
    have hnone := (hsound.directory.pending k' o'
      (.inr (State.inside_top hsound.owned top rfl).2)).2.1
    have hne : k ≠ k' := by
      rintro rfl
      cases hentry.symm.trans hnone
    simpa [AList.lookup_insert_ne hne] using hentry
  case gcErase top | clearChildren top => simpa [Frame.collects] using htop top
  all_goals exact hentry

/-- A call that begins changes no entry. -/
theorem Step.start_children (hs : Step p s (.start n op) s') : s'.children = s.children := by
  cases hs <;> rfl

/-- Other calls begin no collection. -/
theorem Step.start_noCollection (hs : Step p s (.start n op) s') (h : Idle s)
    (hop : op ≠ .garbageCollect ∧ op ≠ .clear) : NoCollection s' := by
  intro t f hf
  rcases hs.enters hf with hold | ⟨-, henters⟩ | hlaunches
  · simp [h t] at hold
  · cases henters with
    | startGet | startDrop | releaseLast | startValue => rfl
    | startCollect label => exact absurd (Label.start.inj label).2 hop.1
    | startClear label => exact absurd (Label.start.inj label).2 hop.2
    | _ => cases (h t).symm.trans ‹s.stack t = _›
  · cases hlaunches
    rfl

/-- Operations that neither collect nor clear keep every entry. -/
theorem Completes.entriesKept [Inhabited K] (h₀ : Runs.Reach (step p) Sequential initial s)
    (h : Completes p s n op s') (hop : op ≠ .garbageCollect ∧ op ≠ .clear) :
    EntriesKept s s' := by
  have hI := h.during.invariant (I := fun m => NoCollection m ∧ EntriesKept s m) h₀ h.before
    (fun s₁ hs => ?_) fun m l m' hsound _ ⟨hno, hkept⟩ hl hs => ?_
  · exact hI.1.2
  · exact ⟨hs.start_noCollection h.before hop, fun k o hentry => hs.start_children ▸ hentry⟩
  · exact ⟨hs.noCollection hl hno, fun k o hentry =>
      hs.entriesKept hsound hno k o (hkept k o hentry)⟩

/-- An object that is attached and living has been so since it was created. -/
theorem Step.attached_before (hs : Step p s l s') {o : Ptr} (ho : o < s.bound)
    (h : (s'.singletons o).Attached) : (s.singletons o).Attached := by
  obtain ⟨hstorage, halive⟩ := h
  refine ⟨?_, ?_⟩
  · by_contra hdetached
    simp [hs.detached_kept ho (by simpa using hdetached)] at hstorage
  · by_contra hdeleted
    simp [hs.deleted_kept ho (by simpa using hdeleted)] at halive

/-- A step keeps the keys of objects, and attaches none of them again. -/
theorem Step.older (hs : Step p s l s') : Older s s' where
  bound := hs.bound_le
  key _ ho := hs.key_eq ho
  attached _ ho := hs.attached_before ho

/-- So does an operation that completes. -/
theorem Completes.older [Inhabited K] (h₀ : Runs.Reach (step p) Sequential initial s)
    (h : Completes p s n op s') : Older s s' :=
  (h.during.invariant (I := Older s) h₀ h.before (fun _ hs => hs.older)
    fun _ _ _ _ _ hold _ hs => hold.trans hs.older).1

/-- The entries of an idle state are its attached living objects. -/
theorem Idle.entry_iff (h : Idle s) (hsound : Sound s) {o : Ptr} (ho : o < s.bound) :
    s.children.lookup (s.singletons o).key = some o ↔ (s.singletons o).Attached := by
  have hinside : s.inside = none := by
    simp only [State.inside]
    cases s.childrenLock <;> simp [h _]
  simpa [State.directory, Singleton.Attached] using
    hsound.directory.entry_iff (o := o) hinside ho

/-- An entry is under the key of its object. -/
theorem Sound.entry_key (h : Sound s) {k : K} {o : Ptr} (entry : s.children.lookup k = some o) :
    (s.singletons o).key = k :=
  h.directory.key k o entry

/-- In an idle storage the entry of a key is its attached object. -/
theorem Idle.entry_iff_key (h : Idle s) (hsound : Sound s) {k : K} {o : Ptr} :
    s.children.lookup k = some o ↔
      o < s.bound ∧ (s.singletons o).key = k ∧ (s.singletons o).Attached := by
  constructor
  · intro entry
    have ho := hsound.allocated.children k o entry
    have hkey := hsound.entry_key entry
    exact ⟨ho, hkey, (h.entry_iff hsound ho).mp (hkey ▸ entry)⟩
  · rintro ⟨ho, rfl, hattached⟩
    exact (h.entry_iff hsound ho).mpr hattached

/-- An entry that was there before an operation and one that is there after it
are the same if the later one is no new object. -/
theorem Completes.entry_before [Inhabited K]
    (h₀ : Runs.Reach (step p) Sequential initial s) (h : Completes p s n op s') {k : K}
    {o : Ptr} (ho : o < s.bound) (entry : s'.children.lookup k = some o) :
    s.children.lookup k = some o := by
  have hold := h.older h₀
  obtain ⟨-, hkey, hattached⟩ := (h.after.entry_iff_key (Reach.sound (h.reach h₀))).mp entry
  exact (h.before.entry_iff_key (Reach.sound h₀)).mpr
    ⟨ho, (hold.key o ho).symm.trans hkey, hold.attached o ho hattached⟩

end SingletonStorage
