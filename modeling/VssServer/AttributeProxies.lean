import VssServer.Stranding

/-!
# The proxies of attributes

The constructors of both families of attributes are handed the `Ref` that `create` has
from `storage->get<Proxy>()`, and keep a reference into the proxy in `m_attribute`.
`CommonAPIBaseProxyAttribute` stores the `Ref`.  `m_proxySingleton` of
`CommonAPIEventSubscriptionProxyAttribute` is a reference to the `Ref` of `create`, a
temporary that is gone when `create` returns.  `proxy_kept` says which drops keep the
proxies alive nevertheless.

* `Kept`: base attributes have their `Ref`, and the proxies of event attributes have some.
* `Kept.step`: every step that meets `Keeps` keeps the proxies.
* `Reach.keeps_of_held`: `Keeps` is met where clients hold the proxies themselves.
* `proxy_kept`: the proxy of a living attribute is not disposed and not deleted.
-/

namespace SingletonStorage

variable {K : Type}

/-- The value types: those derived from `CommonAPIBaseProxyAttribute` and from
`CommonAPIEventSubscriptionProxyAttribute`, with their proxies, and all others. -/
inductive Family (K : Type)
  | base (proxy : K)
  | event (proxy : K)
  | other (create : List (Call K))

namespace Family

/-- The attributes with the temporary `Ref`. -/
def isEvent : Family K → Bool
  | .event _ => true
  | _ => false

/-- The calls of `create`: an attribute gets its proxy and asks for the value of it. -/
def create : Family K → List (Call K)
  | .base proxy | .event proxy => [.get proxy, .value proxy]
  | .other create => create

/-- Event attributes are created when somebody waits for their value. -/
def async (launch : K → Bool) (k : K) : Family K → Bool
  | .event _ => false
  | _ => launch k

end Family

/-- The program of a storage with attributes. -/
def attributeProgram (family : K → Family K) (launch : K → Bool) : Program K where
  create k := (family k).create
  async k := (family k).async launch k

/-- The storage, and the proxy singleton that each attribute has been constructed with. -/
structure AttributeState (K : Type) where
  storage : State K
  proxySingleton : Ptr → Option Ptr

/-- A step of the storage, or the end of the `Ref` of `create`. -/
inductive AttributeLabel (K : Type)
  | storage (l : Label K)
  | dropTemporary (t : Tid) (o : Ptr)

/-- The value whose creation asks for the value of the singleton `o` in this step: the
constructor of an attribute has been handed the `Ref` to `o`. -/
def constructs (s : State K) : Label K → Option (Ptr × Ptr)
  | .pick t o =>
      match s.stack t with
      | .creating v :: _ => some (v, o)
      | _ => none
  | _ => none

/-- `create` of an event attribute would return although it has its `Ref`. -/
def returnsEarly (family : K → Family K) (s : State K) (l : Label K) : Bool :=
  match s.stack l.tid with
  | .creating v :: _ =>
      (s.singletons v).body.isEmpty && (family (s.singletons v).key).isEvent &&
        s.refs.any (fun r => decide (r.1 = .value v))
  | _ => false

instance : LawfulBEq (Holder × Ptr) := inferInstance

namespace AttributeState

/-- The constructor of the attribute `v` is handed the `Ref` to `o`. -/
def construct (s : AttributeState K) (storage : State K) : Option (Ptr × Ptr) → AttributeState K
  | some (v, o) =>
      { storage := storage, proxySingleton := Function.update s.proxySingleton v (some o) }
  | none => { s with storage := storage }

/-- One atomic step of one thread. -/
def step [DecidableEq K] (family : K → Family K) (launch : K → Bool) (s : AttributeState K) :
    AttributeLabel K → Option (AttributeState K)
  | .storage l =>
      if returnsEarly family s.storage l then none
      else (SingletonStorage.step (attributeProgram family launch) s.storage l).map fun storage =>
        s.construct storage (constructs s.storage l)
  | .dropTemporary t o =>
      match s.storage.stack t with
      | .creating v :: rest =>
          if (s.storage.singletons v).body.isEmpty ∧
              (family (s.storage.singletons v).key).isEvent ∧ (.value v, o) ∈ s.storage.refs then
            some { s with storage := s.storage.unref t (.value v) o (.creating v :: rest) }
          else none
      | _ => none

/-- A storage nobody has used yet. -/
def start [Inhabited K] : AttributeState K where
  storage := initial
  proxySingleton _ := none

/-- A living event attribute has been constructed with `o`. -/
def Uses (family : K → Family K) (s : AttributeState K) (o : Ptr) : Prop :=
  ∃ v, s.proxySingleton v = some o ∧ (family (s.storage.singletons v).key).isEvent = true ∧
    (s.storage.singletons v).valueGone = false

/-- The side condition on a step: drops and `get`s are apart; nobody drops the last `Ref` of
a proxy singleton under a living event attribute, `create` of that attribute included. -/
def Keeps (family : K → Family K) (s : AttributeState K) : AttributeLabel K → Prop
  | .storage l => Apart s.storage l ∧ ∀ o, LastDrop s.storage l o → ¬s.Uses family o
  | .dropTemporary _ o => (s.storage.singletons o).refCount ≠ 1

/-- The side condition of clients that hold the proxies themselves: drops and `get`s are
apart, event attributes are constructed with singletons in `held`, and no client drops a
`Ref` to one of these. -/
def Holds (family : K → Family K) (held : Ptr → Prop) (s : AttributeState K) :
    AttributeLabel K → Prop
  | .storage l => Apart s.storage l ∧ (∀ n o, l = .start n (.drop o) → ¬held o) ∧
      ∀ v o, constructs s.storage l = some (v, o) →
        (family (s.storage.singletons v).key).isEvent = true → held o
  | .dropTemporary _ o => held o

end AttributeState

/-- A thread drops a `Ref` to `o`, which has others. -/
def State.dropShared (s : State K) (holder : Holder) (o : Ptr) : State K :=
  { s.modify o fun x => { x with refCount := x.refCount - 1 } with
    refs := s.refs.erase (holder, o) }

/-- Only the counter of the object changes. -/
theorem State.dropShared_object (s : State K) (holder : Holder) (o o' : Ptr) :
    (s.dropShared holder o).singletons o' =
      { s.singletons o' with
        refCount := (s.singletons o').refCount - if o' = o then 1 else 0 } := by
  by_cases heq : o' = o
  · subst heq; simp [dropShared]
  · simp [dropShared, heq]

/-- `unref` goes no further where others hold a `Ref`. -/
theorem State.unref_eq_dropShared (s : State K) {t : Tid} {holder : Holder} {o : Ptr}
    (hmany : 1 < (s.singletons o).refCount) :
    s.unref t holder o (s.stack t) = s.dropShared holder o := by
  simp [hmany, goto, dropShared]

/-- A value drops its `Ref`s when its destructor has been called. -/
def Dropping (s : State K) : Prop :=
  ∀ t v, .dropValue v ∈ s.stack t → (s.singletons v).valueGone = true

variable [DecidableEq K] {p : Program K} {s s' : State K} {l : Label K}

/-- A value that has been destroyed stays so. -/
theorem Step.valueGone_kept (hs : Step p s l s') {v : Ptr} (hv : v < s.bound)
    (h : (s.singletons v).valueGone = true) : (s'.singletons v).valueGone = true := by
  cases hs.object v with
  | same eq => rw [eq, h]
  | new _ _ fresh _ _ => exact absurd fresh hv.ne
  | alters eq step =>
      rw [eq]
      cases step <;> first | exact h | rfl

/-- A destructor that drops `Ref`s has been called. -/
theorem Step.dropping (hs : Step p s l s') (ha : Allocated s) (h : Dropping s) : Dropping s' := by
  intro t v hmem
  rcases hs.enters hmem with hold | ⟨-, henters⟩ | hlaunches
  · have hv := ha.frames t _ hold v (by simp [Frame.pointers])
    exact hs.valueGone_kept hv (h t v hold)
  · cases henters with
    | releaseLast _ _ gone | joinLast _ gone => exact gone
  · cases hlaunches

/-- A living value keeps its `Ref`s. -/
theorem Step.value_kept (hs : Step p s l s') (h : Dropping s) {v o : Ptr}
    (hr : (.value v, o) ∈ s.refs) (halive : (s.singletons v).valueGone = false) :
    (.value v, o) ∈ s'.refs := by
  cases hs
  case getRef => exact .tail _ hr
  case startCopy => exact .tail _ hr
  case startDrop => exact (List.mem_erase_of_ne (by simp)).mpr hr
  case dropRef t v' o' rest top mem =>
    have hgone := h t v' (by simp [top])
    have hne : v ≠ v' := by
      rintro rfl
      simp [hgone] at halive
    exact (List.mem_erase_of_ne (by simp [hne])).mpr hr
  all_goals exact hr

/-- A counter comes to zero in a last drop. -/
theorem Step.refCount_kept (hs : Step p s l s') (hsound : Sound s) (hgone : Gone s) {o : Ptr}
    (ho : o < s.bound) (hpos : 0 < (s.singletons o).refCount) (hlast : ¬LastDrop s l o) :
    0 < (s'.singletons o).refCount := by
  apply (hs.refCount_forward ho hpos).resolve_right
  intro hpending
  have hold : Pending s o := (hs.pending_cases hsound.counted hpending).resolve_right hlast
  rw [(hgone o (.inr (.inl hold))).1] at hpos
  exact lt_irrefl _ hpos

omit [DecidableEq K] in
/-- Two holders have two `Ref`s. -/
theorem Counted.shared (h : Counted s) {holder holder' : Holder} {o : Ptr}
    (hr : (holder, o) ∈ s.refs) (hr' : (holder', o) ∈ s.refs) (hne : holder ≠ holder') :
    1 < (s.singletons o).refCount := by
  have hother : (holder', o) ∈ s.refs.erase (holder, o) :=
    (List.mem_erase_of_ne (by simp [hne.symm])).mpr hr'
  have hrest : 0 < (s.refs.erase (holder, o)).countP (·.2 = o) :=
    List.countP_pos_iff.mpr ⟨_, hother, by simp⟩
  rw [List.countP_erase, if_pos ⟨hr, by simp⟩] at hrest
  rw [h o]
  omega

/-- Nobody but a client drops the `Ref` of a client. -/
theorem Step.client_kept (hs : Step p s l s') {o : Ptr} (hr : (.client, o) ∈ s.refs)
    (hl : ∀ n, l ≠ .start n (.drop o)) : (.client, o) ∈ s'.refs := by
  cases hs
  case getRef => exact .tail _ hr
  case startCopy => exact .tail _ hr
  case startDrop n o' _ _ =>
    refine (List.mem_erase_of_ne ?_).mpr hr
    rintro ⟨⟩
    exact hl n rfl
  case dropRef => exact (List.mem_erase_of_ne (by simp)).mpr hr
  all_goals exact hr

/-- What a client holds loses its last `Ref` only to a client that drops it. -/
theorem Step.not_lastDrop (hs : Step p s l s') (hcounted : Counted s) {o : Ptr}
    (hr : (.client, o) ∈ s.refs) (hl : ∀ n, l ≠ .start n (.drop o)) : ¬LastDrop s l o := by
  rintro ⟨hlast, ⟨n, hdrop⟩ | ⟨t, v, rest, rfl, top⟩⟩
  · exact hl n hdrop
  · cases hs
    case dropRef top' mem =>
      have hmany := hcounted.shared hr mem (by simp)
      omega
    all_goals simp_all

/-- One `Ref` of several goes. -/
theorem Sound.dropShared (h : Sound s) {holder : Holder} {o : Ptr} (hlive : (holder, o) ∈ s.refs) :
    Sound (s.dropShared holder o) where
  shaped := h.shaped
  owned := h.owned
  allocated := by
    refine ⟨h.allocated.frames, ?_, h.allocated.disposed, h.allocated.children, ?_⟩
    · intro r hr
      exact h.allocated.refs r (List.mem_of_mem_erase hr)
    · intro o' ho'
      rw [State.dropShared_object]
      exact h.allocated.fresh o' ho'
  counted := by
    intro o'
    have hcount := h.counted o'
    rw [State.dropShared_object]
    by_cases heq : o' = o
    · subst heq
      simp [State.dropShared, List.countP_erase, hlive, hcount]
    · simp [State.dropShared, List.countP_erase, hlive, heq, hcount, Ne.symm heq]
  detached := by
    intro t o' hmem
    rw [State.dropShared_object]
    exact h.detached t o' hmem
  tasks := by
    intro o' hstack
    rw [State.dropShared_object]
    exact h.tasks o' hstack
  directory := by
    have hsame : (s.dropShared holder o).directory = s.directory := by
      refine State.directory_eq rfl rfl rfl rfl ?_
      intro o'
      rw [State.dropShared_object]
      exact ⟨rfl, rfl, rfl, rfl⟩
    rw [hsame]
    exact h.directory

/-- What nobody referred to is still referred to by nobody. -/
theorem Gone.dropShared (h : Gone s) {holder : Holder} {o : Ptr} : Gone (s.dropShared holder o) := by
  intro o' hretired
  have hold : Retired s o' := by
    refine hretired.imp_right (Or.imp_right (Or.imp_right ?_))
    intro hdeleted
    rw [State.dropShared_object] at hdeleted
    exact hdeleted
  obtain ⟨hcount, hhanded⟩ := h o' hold
  refine ⟨?_, hhanded⟩
  rw [State.dropShared_object]
  simp [hcount]

namespace AttributeState

variable {family : K → Family K} {launch : K → Bool} {s s' : AttributeState K}
  {l : AttributeLabel K}

/-- Base attributes have their `Ref`, and the proxies of event attributes have some; a
destructor of a value runs after its life. -/
structure Kept (family : K → Family K) (s : AttributeState K) : Prop where
  sound : Sound s.storage
  gone : Gone s.storage
  dropping : Dropping s.storage
  known : ∀ v o, s.proxySingleton v = some o → v < s.storage.bound ∧ o < s.storage.bound
  base : ∀ v o, s.proxySingleton v = some o →
    (family (s.storage.singletons v).key).isEvent = false →
    (s.storage.singletons v).valueGone = false → (.value v, o) ∈ s.storage.refs
  event : ∀ o, s.Uses family o → 0 < (s.storage.singletons o).refCount

/-- What the steps of `s` can be. -/
theorem step_cases (hstep : s.step family launch l = some s') :
    (∃ l' storage, l = .storage l' ∧ returnsEarly family s.storage l' = false ∧
      Step (attributeProgram family launch) s.storage l' storage ∧
      s' = s.construct storage (constructs s.storage l')) ∨
    ∃ t o v rest, l = .dropTemporary t o ∧ s.storage.stack t = .creating v :: rest ∧
      (family (s.storage.singletons v).key).isEvent = true ∧ (.value v, o) ∈ s.storage.refs ∧
      s' = { s with storage := s.storage.unref t (.value v) o (s.storage.stack t) } := by
  cases l with
  | storage l' =>
      simp only [step] at hstep
      obtain ⟨hreturns, hstep⟩ := Option.ite_none_left_eq_some.mp hstep
      obtain ⟨storage, hs, rfl⟩ := Option.map_eq_some_iff.mp hstep
      exact .inl ⟨l', storage, rfl, by simpa using hreturns, SingletonStorage.step_cases hs, rfl⟩
  | dropTemporary t o =>
      simp only [step] at hstep
      split at hstep
      case h_1 v rest top =>
        obtain ⟨⟨-, hevent, hlive⟩, hstep⟩ := Option.ite_none_right_eq_some.mp hstep
        cases hstep
        exact .inr ⟨t, o, v, rest, rfl, top, hevent, hlive, by rw [top]⟩
      case h_2 => cases hstep

/-- A step of the storage begins no use of a proxy. -/
theorem Kept.uses_before (h : Kept family s) {l' : Label K} {storage : State K} {o : Ptr}
    (hs : Step (attributeProgram family launch) s.storage l' storage)
    (huses : Uses family { s with storage := storage } o) : s.Uses family o := by
  obtain ⟨v, hv, hevent, halive⟩ := huses
  obtain ⟨hlt, -⟩ := h.known v o hv
  rw [hs.key_eq hlt] at hevent
  refine ⟨v, hv, hevent, ?_⟩
  by_contra hgone
  simp [hs.valueGone_kept hlt (by simpa using hgone)] at halive

/-- A step of the storage keeps the proxies. -/
theorem Kept.storage (h : Kept family s) {l' : Label K} {storage : State K}
    (hs : Step (attributeProgram family launch) s.storage l' storage)
    (hok : Keeps family s (.storage l')) : Kept family { s with storage := storage } where
  sound := hs.sound h.sound
  gone := hs.gone h.sound hok.1 h.gone
  dropping := hs.dropping h.sound.allocated h.dropping
  known := by
    intro v o hv
    obtain ⟨hlt, hlt'⟩ := h.known v o hv
    exact ⟨hlt.trans_le hs.bound_le, hlt'.trans_le hs.bound_le⟩
  base := by
    intro v o hv hbase halive
    obtain ⟨hlt, -⟩ := h.known v o hv
    rw [hs.key_eq hlt] at hbase
    have hbefore : (s.storage.singletons v).valueGone = false := by
      by_contra hgone
      simp [hs.valueGone_kept hlt (by simpa using hgone)] at halive
    exact hs.value_kept h.dropping (h.base v o hv hbase hbefore) hbefore
  event := by
    intro o hafter
    have huses := h.uses_before hs hafter
    have ⟨v, hv, _⟩ := huses
    apply hs.refCount_kept h.sound h.gone (h.known v o hv).2 (h.event o huses)
    intro hlast
    exact hok.2 o hlast huses

/-- The `Ref` that a constructor is handed counts. -/
theorem Kept.construct (h : Kept family s) {v o : Ptr} (hv : v < s.storage.bound)
    (hlive : (.value v, o) ∈ s.storage.refs) :
    Kept family { s with proxySingleton := Function.update s.proxySingleton v (some o) } := by
  have hcases : ∀ {v' o'}, Function.update s.proxySingleton v (some o) v' = some o' →
      (v' = v ∧ o' = o) ∨ s.proxySingleton v' = some o' := by
    intro v' o' hv'
    by_cases heq : v' = v
    · subst heq
      rw [Function.update_self] at hv'
      exact .inl ⟨rfl, (Option.some.inj hv').symm⟩
    · rw [Function.update_of_ne heq] at hv'
      exact .inr hv'
  refine ⟨h.sound, h.gone, h.dropping, ?_, ?_, ?_⟩
  · intro v' o' hv'
    rcases hcases hv' with ⟨rfl, rfl⟩ | hold
    · exact ⟨hv, h.sound.allocated.refs _ hlive⟩
    · exact h.known v' o' hold
  · intro v' o' hv' hbase halive
    rcases hcases hv' with ⟨rfl, rfl⟩ | hold
    · exact hlive
    · exact h.base v' o' hold hbase halive
  · rintro o' ⟨v', hv', hevent, halive⟩
    rcases hcases hv' with ⟨rfl, rfl⟩ | hold
    · exact h.sound.counted.pos hlive
    · exact h.event o' ⟨v', hold, hevent, halive⟩

/-- `create` of an event attribute drops one of several `Ref`s. -/
theorem Kept.dropTemporary (h : Kept family s) {v o : Ptr}
    (hevent : (family (s.storage.singletons v).key).isEvent = true)
    (hlive : (.value v, o) ∈ s.storage.refs) (hmany : 1 < (s.storage.singletons o).refCount) :
    Kept family { s with storage := s.storage.dropShared (.value v) o } where
  sound := h.sound.dropShared hlive
  gone := h.gone.dropShared
  dropping := by
    intro t v' hmem
    rw [State.dropShared_object]
    exact h.dropping t v' hmem
  known := h.known
  base := by
    intro v' o' hv' hbase halive
    rw [State.dropShared_object] at hbase halive
    have hne : v' ≠ v := by
      rintro rfl
      simp [hbase] at hevent
    exact (List.mem_erase_of_ne (by simp [hne])).mpr (h.base v' o' hv' hbase halive)
  event := by
    rintro o' ⟨v', hv', hevent', halive⟩
    rw [State.dropShared_object] at hevent' halive
    have hpos := h.event o' ⟨v', hv', hevent', halive⟩
    rw [State.dropShared_object]
    by_cases heq : o' = o
    · subst heq
      simp only [if_true]
      omega
    · simpa [heq] using hpos

/-- The constructor is called in the creation of the attribute, and has the `Ref`. -/
theorem constructs_eq_some {s : State K} {l : Label K} {storage : State K} {v o : Ptr}
    (hs : Step (attributeProgram family launch) s l storage)
    (hconstructs : constructs s l = some (v, o)) :
    ∃ t rest, s.stack t = .creating v :: rest ∧ (.value v, o) ∈ storage.refs := by
  unfold constructs at hconstructs
  split at hconstructs
  case h_1 t o' =>
    split at hconstructs
    case h_1 v' rest top =>
      cases hconstructs
      refine ⟨t, rest, top, ?_⟩
      cases hs
      case createValue v' _ _ _ call top' mem key =>
        obtain ⟨hframe, -⟩ := List.cons.inj (top'.symm.trans top)
        cases hframe
        exact mem
      all_goals simp_all
    case h_2 => cases hconstructs
  case h_2 => cases hconstructs

/-- Every step that meets the side condition keeps the proxies. -/
theorem Kept.step (h : Kept family s) (hok : Keeps family s l)
    (hstep : s.step family launch l = some s') : Kept family s' := by
  rcases step_cases hstep with
    ⟨l', storage, rfl, -, hs, rfl⟩ | ⟨t, o, v, rest, rfl, top, hevent, hlive, rfl⟩
  · have hstorage := h.storage hs hok
    cases hconstructs : constructs s.storage l' with
    | none => exact hstorage
    | some handed =>
        obtain ⟨v, o⟩ := handed
        obtain ⟨t, rest, top, hlive⟩ := constructs_eq_some hs hconstructs
        have hv : v < s.storage.bound :=
          h.sound.allocated.frames t _ (by rw [top]; exact .head _) v (by simp [Frame.pointers])
        exact hstorage.construct (hv.trans_le hs.bound_le) hlive
  · have hpos := h.sound.counted.pos hlive
    have hmany : 1 < (s.storage.singletons o).refCount := by
      have hne : (s.storage.singletons o).refCount ≠ 1 := hok
      change 0 < (s.storage.singletons o).refCount at hpos
      omega
    rw [State.unref_eq_dropShared _ hmany]
    exact h.dropTemporary hevent hlive hmany

/-- The proxies are kept in every such run. -/
theorem Reach.kept [Inhabited K]
    (h : Runs.Reach (step family launch) (Keeps family) start s) : Kept family s := by
  apply h.invariant (I := Kept family)
  · refine ⟨sound_initial, gone_initial, ?_, nofun, nofun, ?_⟩
    · intro t v hmem
      cases hmem
    · rintro o ⟨v, hv, -⟩
      cases hv
  · intro s l s' hs hok hstep
    exact hs.step hok hstep

/-- Singletons that a client holds keep the proxies, `Holds` the side condition. -/
structure HeldBy (family : K → Family K) (held : Ptr → Prop) (s : AttributeState K) : Prop where
  kept : Kept family s
  refs : ∀ o, held o → (.client, o) ∈ s.storage.refs
  uses : ∀ o, s.Uses family o → held o

/-- What a client holds is kept, whoever else drops it. -/
theorem HeldBy.keeps {held : Ptr → Prop} (h : HeldBy family held s) (hok : Holds family held s l)
    (hstep : s.step family launch l = some s') : Keeps family s l := by
  rcases step_cases hstep with
    ⟨l', storage, rfl, -, hs, -⟩ | ⟨t, o, v, rest, rfl, top, -, hlive, -⟩
  · refine ⟨hok.1, fun o hlast huses => ?_⟩
    have hheld := h.uses o huses
    refine hs.not_lastDrop h.kept.sound.counted (h.refs o hheld) (fun n hl => ?_) hlast
    exact hok.2.1 n o hl hheld
  · exact (h.kept.sound.counted.shared (h.refs o hok) hlive (by simp)).ne'

/-- Clients that do not drop the proxies go on holding them. -/
theorem HeldBy.step {held : Ptr → Prop} (h : HeldBy family held s) (hok : Holds family held s l)
    (hstep : s.step family launch l = some s') : HeldBy family held s' := by
  have hkept := h.kept.step (h.keeps hok hstep) hstep
  rcases step_cases hstep with
    ⟨l', storage, rfl, -, hs, rfl⟩ | ⟨t, o, v, rest, rfl, top, -, hlive, rfl⟩
  · have hrefs : ∀ o, held o → (.client, o) ∈ storage.refs := fun o hheld =>
      hs.client_kept (h.refs o hheld) fun n hl => hok.2.1 n o hl hheld
    cases hconstructs : constructs s.storage l' with
    | none =>
        rw [hconstructs] at hkept
        exact ⟨hkept, hrefs, fun o huses => h.uses o (h.kept.uses_before hs huses)⟩
    | some handed =>
        obtain ⟨v, o⟩ := handed
        rw [hconstructs] at hkept
        refine ⟨hkept, hrefs, fun o' huses => ?_⟩
        obtain ⟨v', hv', hevent, halive⟩ := huses
        by_cases heq : v' = v
        · subst heq
          simp only [AttributeState.construct, Function.update_self, Option.some.injEq] at hv'
          subst hv'
          obtain ⟨t, rest, top, -⟩ := constructs_eq_some hs hconstructs
          have hlt : v' < s.storage.bound := h.kept.sound.allocated.frames t _
            (by rw [top]; exact .head _) v' (by simp [Frame.pointers])
          exact hok.2.2 v' o hconstructs (hs.key_eq hlt ▸ hevent)
        · simp only [AttributeState.construct, Function.update_of_ne heq] at hv'
          exact h.uses o' (h.kept.uses_before hs ⟨v', hv', hevent, halive⟩)
  · have hmany := h.kept.sound.counted.shared (h.refs o hok) hlive (by simp)
    rw [State.unref_eq_dropShared _ hmany] at hkept ⊢
    refine ⟨hkept, fun o' hheld => ?_, fun o' huses => ?_⟩
    · exact (List.mem_erase_of_ne (by simp)).mpr (h.refs o' hheld)
    · obtain ⟨v', hv', hevent, halive⟩ := huses
      rw [State.dropShared_object] at hevent halive
      exact h.uses o' ⟨v', hv', hevent, halive⟩

/-- **Proxies that clients hold.**  Where the clients have the proxies first, event
attributes are constructed with these alone, and no client drops them, `Keeps` is met. -/
theorem Reach.keeps_of_held [Inhabited K] {held : Ptr → Prop} {s₀ : AttributeState K}
    (h : Runs.Reach (step family launch) (Keeps family) start s₀)
    (hrefs : ∀ o, held o → (.client, o) ∈ s₀.storage.refs)
    (huses : ∀ o, s₀.Uses family o → held o)
    (hlater : Runs.Reach (step family launch) (Holds family held) s₀ s) :
    Runs.Reach (step family launch) (Keeps family) start s := by
  have hheld : HeldBy family held s₀ := ⟨Reach.kept h, hrefs, huses⟩
  refine h.trans (hlater.weaken (I := HeldBy family held) ?_ ?_)
  · intro s hs
    exact hs.invariant hheld fun _ _ _ hI hok hstep => hI.step hok hstep
  · intro s l s' hI hok hstep
    exact hI.keeps hok hstep

/-- **Proxies are kept.**  As long as drops and `get`s are apart and nobody drops the last
`Ref` of a proxy singleton under a living event attribute, the proxy singleton of every
living attribute has a `Ref`, is not disposed and is not deleted. -/
theorem proxy_kept [Inhabited K]
    (h : Runs.Reach (step family launch) (Keeps family) start s) {v o : Ptr}
    (hproxy : s.proxySingleton v = some o) (halive : (s.storage.singletons v).valueGone = false) :
    0 < (s.storage.singletons o).refCount ∧ o ∉ s.storage.disposed ∧
      (s.storage.singletons o).deleted = false ∧ ∀ l, ¬Deletes s.storage l o := by
  have hkept := Reach.kept h
  have hpos : 0 < (s.storage.singletons o).refCount := by
    cases hfamily : (family (s.storage.singletons v).key).isEvent with
    | true => exact hkept.event o ⟨v, hproxy, hfamily, halive⟩
    | false => exact hkept.sound.counted.pos (hkept.base v o hproxy hfamily halive)
  have hretired : ¬Retired s.storage o := by
    intro hretired
    rw [(hkept.gone o hretired).1] at hpos
    exact lt_irrefl _ hpos
  refine ⟨hpos, fun hdisposed => hretired (.inl hdisposed), ?_, ?_⟩
  · by_contra hdeleted
    exact hretired (.inr (.inr (.inr (by simpa using hdeleted))))
  · intro l hdeletes
    exact hretired (hdeletes.retired.elim (fun h => .inr (.inl h)) fun h => .inr (.inr (.inl h)))

omit [DecidableEq K] in
/-- A step that drops nothing and recycles nothing that is pending. -/
theorem keeps_of_quiet {l' : Label K} (hdrop : ∀ o, ¬LastDrop s.storage l' o)
    (hrecycle : ∀ o, Recycles s.storage l' o → ¬Pending s.storage o) :
    Keeps family s (.storage l') :=
  ⟨⟨hrecycle, fun o hlast => absurd hlast (hdrop o)⟩, fun o hlast => absurd hlast (hdrop o)⟩

/-- A proxy, an attribute of it that stores the `Ref`, and one that does not. -/
def vehicle : String → Family String
  | "Speed" => .base "Proxy"
  | "Alarm" => .event "Proxy"
  | _ => .other []

/-- Proxies are created in a task. -/
def launchProxy (k : String) : Bool :=
  k = "Proxy"

/-- Client 0 gets the proxy and keeps its `Ref`, and gets the event attribute. -/
def getProxyAlarm : List (AttributeLabel String) :=
  [.storage (.start 0 (.get "Proxy")), .storage (.next (.client 0)), .storage (.next (.client 0)),
    .storage (.next (.client 0)), .storage (.next (.client 0)), .storage (.next (.client 0)),
    .storage (.next (.client 0)), .storage (.next (.task 0)), .storage (.start 0 (.get "Alarm")),
    .storage (.next (.client 0)), .storage (.next (.client 0)), .storage (.next (.client 0)),
    .storage (.next (.client 0)), .storage (.next (.client 0)), .storage (.next (.client 0)),
    .storage (.start 0 (.value 1)), .storage (.next (.client 0)), .storage (.next (.client 0)),
    .storage (.next (.client 0)), .storage (.next (.client 0)), .storage (.next (.client 0)),
    .storage (.next (.client 0)), .storage (.next (.client 0)), .storage (.pick (.client 0) 0),
    .storage (.next (.client 0)), .dropTemporary (.client 0) 0, .storage (.next (.client 0)),
    .storage (.next (.client 0))]

/-- The event attribute outlives the `Ref` of its `create`, because the client has the proxy. -/
theorem proxy_kept_getProxyAlarm :
    ∃ s, Runs.run (step vehicle launchProxy) start getProxyAlarm = some s ∧
      s.proxySingleton 1 = some 0 ∧ s.storage.refs = [(.client, 1), (.client, 0)] ∧
      0 < (s.storage.singletons 0).refCount := by
  have hrun : Runs.run (step vehicle launchProxy) start getProxyAlarm = some _ := rfl
  have hmeets : Runs.RunMeets (step vehicle launchProxy) (Keeps vehicle) start getProxyAlarm := by
    iterate 20
      refine ⟨keeps_of_quiet ?_ ?_, ?_⟩
      · rintro o ⟨-, ⟨_, ⟨⟩⟩ | ⟨_, _, _, ⟨⟩, -⟩⟩
      · rintro o ⟨_, _, _, ⟨⟩, ⟨⟩⟩
      rintro _ ⟨⟩
    -- the proxy has been there for its second `get` all the time
    refine ⟨keeps_of_quiet ?_ ?_, ?_⟩
    · rintro o ⟨-, ⟨_, ⟨⟩⟩ | ⟨_, _, _, ⟨⟩, -⟩⟩
    · rintro o - ⟨t, f, hf, hpending⟩
      have hidle : f ∈ [.getRecycle "Proxy" 0, .creating 1, .wait 1 true] ∨ f ∈ [] := by
        rcases t with n | o
        · rcases n with _ | n
          · exact .inl hf
          · exact .inr hf
        · rcases o with _ | o
          · exact .inr hf
          · exact .inr hf
      simp only [List.mem_cons, List.not_mem_nil, or_false] at hidle
      rcases hidle with rfl | rfl | rfl <;> cases hpending
    rintro _ ⟨⟩
    iterate 4
      refine ⟨keeps_of_quiet ?_ ?_, ?_⟩
      · rintro o ⟨-, ⟨_, ⟨⟩⟩ | ⟨_, _, _, ⟨⟩, ⟨⟩⟩⟩
      · rintro o ⟨_, _, _, ⟨⟩, ⟨⟩⟩
      rintro _ ⟨⟩
    refine ⟨show 2 ≠ 1 by decide, ?_⟩
    rintro _ ⟨⟩
    iterate 2
      refine ⟨keeps_of_quiet ?_ ?_, ?_⟩
      · rintro o ⟨-, ⟨_, ⟨⟩⟩ | ⟨_, _, _, ⟨⟩, -⟩⟩
      · rintro o ⟨_, _, _, ⟨⟩, ⟨⟩⟩
      rintro _ ⟨⟩
    trivial
  have hreach := Runs.reach_of_run hrun hmeets
  exact ⟨_, hrun, rfl, rfl, (proxy_kept (v := 1) (o := 0) hreach rfl rfl).1⟩

/-- Client 0 gets an event attribute and its value, and collects. -/
def getAlarmCollect : List (AttributeLabel String) :=
  [.storage (.start 0 (.get "Alarm")), .storage (.next (.client 0)), .storage (.next (.client 0)),
    .storage (.next (.client 0)), .storage (.next (.client 0)), .storage (.next (.client 0)),
    .storage (.next (.client 0)), .storage (.start 0 (.value 0)), .storage (.next (.client 0)),
    .storage (.next (.client 0)), .storage (.next (.client 0)), .storage (.next (.client 0)),
    .storage (.next (.client 0)), .storage (.next (.client 0)), .storage (.next (.client 0)),
    .storage (.next (.client 0)), .storage (.next (.task 1)), .storage (.pick (.client 0) 1),
    .storage (.next (.client 0)), .dropTemporary (.client 0) 1, .storage (.next (.client 0)),
    .storage (.next (.client 0)), .storage (.next (.client 0)), .storage (.next (.client 0)),
    .storage (.next (.client 0)), .storage (.start 0 .garbageCollect),
    .storage (.next (.client 0)), .storage (.next (.client 0)),
    .storage (.pickKey (.client 0) "Proxy")]

/-- The collection deletes the proxy singleton of an event attribute that the client has. -/
theorem proxy_deleted :
    ∃ s, Runs.run (step vehicle launchProxy) start getAlarmCollect = some s ∧
      s.proxySingleton 0 = some 1 ∧ (.client, 0) ∈ s.storage.refs ∧
      (s.storage.singletons 0).future = .ready ∧ (s.storage.singletons 0).valueGone = false ∧
      (s.storage.singletons 1).refCount = 0 ∧ (s.storage.singletons 1).deleted = true :=
  ⟨_, rfl, rfl, .head _, rfl, rfl, rfl, rfl⟩

end AttributeState

end SingletonStorage
