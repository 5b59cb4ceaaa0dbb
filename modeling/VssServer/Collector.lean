import Mathlib.Algebra.GroupWithZero.Nat
import VssServer.IdleStorage

/-!
# One collection, step by step

A `garbageCollect` that begins while every thread is idle runs alone.  `work`
bounds what it has still to do: a `Ref` that a destructor drops can lead to a
dispose, and a disposed singleton to a deletion, but neither comes back, so every
step lowers it.  Until the collection is over one of its steps is enabled: the
lock and the spinlocks are free, the singletons it joins have no running
creation, and every key it took has an entry.

* `Step.work_lt`: every step of a collection lowers what is left to do.
* `Releasing.enabled`: what a lone client does has a step to take.
* `Releasing.asserted`: no assertion fails where a lone client collects or clears.
* `garbageCollect_length_le`: the bound of a collection.
-/

namespace SingletonStorage

variable {K : Type}

/-- What a frame of a collection has still to do. -/
def Frame.work : Frame K → Nat
  | .unrefLock _ => 9
  | .unrefLocked _ => 8
  | .unrefUnlock _ | .dropValue _ | .gcUnlock _ => 1
  | .unrefDelete _ | .gcLock => 3
  | .join _ | .gcRound _ _ => 2
  | .gcKeys none keys _ _ => 3 + 4 * keys.length
  | .gcKeys (some _) keys _ _ => 4 + 4 * keys.length
  | _ => 0

/-- What a collection of client `n` has still to do. -/
def State.work (s : State K) (n : Nat) : Nat :=
  10 * s.refs.length + 6 * s.disposed.card + ((s.stack (.client n)).map Frame.work).sum

/-- The entries of the keys a round has taken are there. -/
def Frame.Found (children : AList fun _ : K => Ptr) : Frame K → Prop
  | .gcKeys current keys _ _ => (∀ k ∈ keys, k ∈ children) ∧ ∀ k ∈ current, k ∉ keys
  | _ => True

/-- The assertions of `garbageCollect` where it has come to them: of
`moveDisposedToDeleteKeysUnlocked` that a disposed entry has no `Ref` and that
there are as many of them as disposed singletons, of
`garbageCollectInternalUnlocked` that the key is found, and of
`~BaseSingleton`, from the deletion on, that the counter is zero. -/
structure Asserted (s : State K) : Prop where
  refCount : ∀ t n caller rest, s.stack t = .gcRound n caller :: rest →
    ∀ e ∈ s.children.entries, e.2 ∈ s.disposed → (s.singletons e.2).refCount = 0
  complete : ∀ t n caller rest, s.stack t = .gcRound n caller :: rest →
    s.disposedKeys.length = s.disposed.card
  found : ∀ t keys n caller rest, s.stack t = .gcKeys none keys n caller :: rest →
    ∀ k ∈ keys, k ∈ s.children
  deleted : ∀ o, (s.singletons o).deleted = true → (s.singletons o).refCount = 0

/-- What a collection leaves to the owners of values, and of the `Ref`s whose
owner stays. -/
structure Untouched (s₀ s : State K) : Prop where
  pins : ∀ v, (s.singletons v).pins = (s₀.singletons v).pins
  pinned : ∀ v, 0 < (s₀.singletons v).pins →
    (s.singletons v).valueGone = (s₀.singletons v).valueGone
  count : ∀ r, ¬DestroyedBetween s₀ s r.1 → s.refs.count r = s₀.refs.count r

variable [DecidableEq K] {p : Program K} {s₀ s s' : State K} {l : Label K} {n : Nat} {op : Op K}

/-- **Operation rule**, with all that is known of states within the operation. -/
theorem During.along {I : State K → Prop} (hstart : ∀ s₁, Step p s₀ (.start n op) s₁ → I s₁)
    (hstep : ∀ m l m', During p s₀ n op m → During p s₀ n op m' → I m → Running m l →
      Step p m l m' → I m')
    (h : During p s₀ n op s) : I s := by
  obtain ⟨s₁, hfirst, hrun⟩ := h
  exact hrun.along (hstart s₁ (step_cases hfirst)) fun m l m' hm hI hok hs =>
    hstep m l m' ⟨s₁, hfirst, hm⟩ ⟨s₁, hfirst, hm.tail hok hs⟩ hI hok (step_cases hs)

/-- The call goes on. -/
theorem During.next (h : During p s₀ n op s) (hok : Running s l) (hs : step p s l = some s') :
    During p s₀ n op s' := by
  obtain ⟨s₁, hfirst, hrun⟩ := h
  exact ⟨s₁, hfirst, hrun.tail hok hs⟩

/-- What happens during a call is a sequential history. -/
theorem During.reach [Inhabited K] (h₀ : Runs.Reach (step p) Sequential initial s₀)
    (hidle : Idle s₀) (h : During p s₀ n op s) : Runs.Reach (step p) Sequential initial s := by
  obtain ⟨s₁, hfirst, hrun⟩ := h
  refine (h₀.tail (fun _ _ _ => hidle) hfirst).trans (hrun.weaken (I := fun _ => True) ?_ ?_)
  · exact fun _ _ => trivial
  · exact fun s l s' _ hok _ n op hl => absurd hl (hok n op)

/-- A state within a `garbageCollect`. -/
theorem During.collecting [Inhabited K] (h₀ : Runs.Reach (step p) Sequential initial s₀)
    (hidle : Idle s₀) (h : During p s₀ n .garbageCollect s) : Collecting s₀ n s := by
  refine h.along (fun _ hs => hs.start_collecting hidle) fun m l m' hm _ hI hok hs => ?_
  have hr := Reach.orderly (hm.reach h₀ hidle)
  exact hs.collecting (Reach.tracked hr).1 (Reach.valuesOnce hr) hok hI

/-- Frames of a collection and of the destructors it calls. -/
def Frame.collector (f : Frame K) : Bool :=
  (f.destroys || f.collects) && !f.clears && f ≠ .clearUnlock

/-- A collection is in no other function. -/
theorem Collecting.top (h : Collecting s₀ n s) (hsound : Sound s) {t : Tid} {f : Frame K}
    {rest : List (Frame K)} (top : s.stack t = f :: rest) : t = .client n ∧ f.collector := by
  obtain ⟨rfl, hf⟩ := h.releasing.top top
  have hclears := h.clears f (by simp [top])
  have hunlock : f ≠ .clearUnlock := by
    rintro rfl
    have hrest : rest = [] := by
      simpa [Frame.above, Frame.destroys, Frame.collects] using (hsound.shaped.of_top top).1
    simpa [top, hrest, Frame.gathers] using h.emptied
  exact ⟨rfl, by simp [Frame.collector, hf, hclears, hunlock]⟩

/-- **Measure.**  Every step of a collection lowers what is left to do. -/
theorem Step.work_lt (hs : Step p s l s') (hsound : Sound s) (hl : Running s l)
    (h : Collecting s₀ n s) : s'.work n < s.work n := by
  have hmove : ∀ {frames}, s'.refs.length ≤ s.refs.length → s'.disposed.card ≤ s.disposed.card →
      s'.stack (.client n) = frames →
      (frames.map Frame.work).sum < ((s.stack (.client n)).map Frame.work).sum →
      s'.work n < s.work n := by
    intro frames hrefs hdisposed hstack hsum
    simp only [State.work, hstack]
    omega
  cases hs
  case unrefDispose o rest top attached =>
    obtain ⟨rfl, -⟩ := h.top hsound top
    have hcard := Finset.card_insert_le o s.disposed
    simp [State.work, top, Frame.work]
    omega
  case dropRef v o rest top mem =>
    obtain ⟨rfl, -⟩ := h.top hsound top
    have hlength := List.length_erase_add_one mem
    simp only [State.work, State.unref, State.goto_stack, Function.update_self, State.goto_disposed,
      State.modify_disposed, top]
    split <;> simp [Frame.work] <;> omega
  case gcRound caller rest top nonempty =>
    obtain ⟨rfl, -⟩ := h.top hsound top
    have hpos := List.length_pos_iff.mpr nonempty
    have hle : s.disposedKeys.length ≤ s.disposed.card := List.length_take_le ..
    simp [State.work, top, Frame.work]
    omega
  case gcDelete mem =>
    have top := ‹s.stack _ = _›
    obtain ⟨rfl, -⟩ := h.top hsound top
    have hlength := List.length_erase_add_one mem
    refine hmove le_rfl le_rfl (Function.update_self ..) ?_
    simp [top, Frame.work]
    omega
  case unrefLock top _ | unrefDetached top _ | unrefUnlock top | unrefDelete top | joinLast top _ _
    | joinPinned top _ _ | dropDone top _ | gcLock top _ | gcErase top | gcKeysDone top
    | gcUnlock top =>
    obtain ⟨rfl, -⟩ := h.top hsound top
    exact hmove le_rfl le_rfl (Function.update_self ..) (by simp [top, Frame.work])
  case gcEnd top _ =>
    obtain ⟨rfl, -⟩ := h.top hsound top
    exact hmove le_rfl (Nat.zero_le _) (Function.update_self ..) (by simp [top, Frame.work])
  all_goals first
    | exact absurd rfl (hl _ _)
    | cases (h.top hsound ‹s.stack _ = _›).2

/-- The entries of the keys that are left stay until their turn comes. -/
theorem Step.keysFound (hs : Step p s l s') (hsound : Sound s) (htracked : Tracked s)
    (hl : Running s l) (h : Releasing s n)
    (hfound : ∀ f ∈ s.stack (.client n), f.Found s.children) :
    ∀ f ∈ s'.stack (.client n), f.Found s'.children := by
  have hmove : ∀ {t f rest} (frames), s.stack t = f :: rest →
      s'.stack = Function.update s.stack t (frames ++ rest) → s'.children = s.children →
      (∀ g ∈ frames, g.Found s.children) → ∀ f ∈ s'.stack (.client n), f.Found s'.children := by
    intro t f rest frames top hstack hchildren hframes g hg
    obtain ⟨rfl, -⟩ := h.top top
    rw [hstack, Function.update_self] at hg
    rw [hchildren]
    rcases List.mem_append.mp hg with hnew | hold
    · exact hframes g hnew
    · exact hfound g (by simp [top, hold])
  have htop : ∀ {t f rest}, s.stack t = f :: rest → f.Found s.children := by
    intro t f rest top
    obtain ⟨rfl, -⟩ := h.top top
    exact hfound f (by simp [top])
  cases hs
  case dropRef v o rest top mem =>
    obtain ⟨rfl, -⟩ := h.top top
    have hbelow : ∀ f ∈ Frame.dropValue v :: rest, f.Found s.children := top ▸ hfound
    simp only [State.unref, State.goto_stack, Function.update_self]
    split
    · exact hbelow
    · exact List.forall_mem_cons.mpr ⟨trivial, hbelow⟩
  case gcRound top nonempty =>
    refine hmove [_] top rfl rfl (List.forall_mem_singleton.mpr ⟨fun k hk => ?_, nofun⟩)
    obtain ⟨o, -, entry⟩ := State.mem_of_disposedKeys hk
    exact AList.lookup_isSome.mp (by simp [entry])
  case gcDelete mem =>
    have top := ‹s.stack _ = _›
    refine hmove [_, _] top rfl rfl (List.forall_mem_cons.mpr
      ⟨trivial, List.forall_mem_singleton.mpr ⟨?_, ?_⟩⟩)
    · exact fun k hk => (htop top).1 k (List.mem_of_mem_erase hk)
    · rintro _ ⟨⟩
      exact (htracked.keys _ _ _ _ _ (by rw [top]; exact .head _)).not_mem_erase
  case gcErase top =>
    obtain ⟨rfl, -⟩ := h.top top
    obtain ⟨hin, hout⟩ := htop top
    have hrest : _ = [] := (hsound.shaped.of_top top).1
    subst hrest
    simp only [State.goto_stack, Function.update_self, List.forall_mem_singleton]
    refine ⟨fun k' hk' => AList.mem_erase.mpr ⟨?_, hin k' hk'⟩, nofun⟩
    rintro rfl
    exact hout _ rfl hk'
  case clearChildren top =>
    obtain ⟨rfl, -⟩ := h.top top
    have hrest : _ = [] := (hsound.shaped.of_top top).1
    subst hrest
    simp [Frame.Found]
  case unrefDispose top _ | unrefLock top _ | unrefDetached top _ | unrefDelete top
    | joinLast top _ _ | gcLock top _ | gcKeysDone top | gcEnd top _ | clearLock top _
    | clearCollected top _ | clearDetach top _ _ =>
    exact hmove [_] top rfl rfl (by simp [Frame.Found])
  case unrefUnlock top | joinPinned top _ _ | dropDone top _ | gcUnlock top | clearUnlock top =>
    exact hmove [] top rfl rfl nofun
  all_goals first
    | exact absurd rfl (hl _ _)
    | rcases (h.top ‹s.stack _ = _›).2 with hdestroys | hcollects
      · cases hdestroys
      · cases hcollects

/-- **Progress.**  What a lone client collects, clears or destroys has a step to take. -/
theorem Releasing.enabled (h : Releasing s n) (hsound : Sound s) (hattended : Attended s)
    (hfound : ∀ f ∈ s.stack (.client n), f.Found s.children) :
    Idle s ∨ ∃ l, Running s l ∧ (step p s l).isSome := by
  have hothers := h.1
  rcases hstack : s.stack (.client n) with _ | ⟨f, rest⟩
  · left
    intro t
    by_cases ht : t = .client n
    · rw [ht, hstack]
    · exact hothers t ht
  right
  have hnext : (next p s (.client n)).isSome → ∃ l, Running s l ∧ (step p s l).isSome :=
    fun hs => ⟨.next (.client n), by simp [Running], hs⟩
  -- every frame is the one on top, or that of a destructor it was called from
  have hframe : ∀ {t g}, g ∈ s.stack t → g = f ∨ g.deletes := by
    intro t g hg
    have ht : t = .client n := by
      by_contra ht
      simp [hothers t ht] at hg
    subst ht
    have hcalled := h.2 g hg
    rw [hstack] at hg
    refine (List.mem_cons.mp hg).imp_right fun hrest => ?_
    refine ((hsound.shaped.of_top hstack).below g hrest).resolve_right fun hwaits => ?_
    cases g <;> simp_all [Frame.waits, Frame.destroys, Frame.collects]
  have hunlocked : ∀ o, f ≠ .unrefLocked o → f ≠ .unrefUnlock o →
      (s.singletons o).spinlock = false := by
    intro o hne hne'
    by_contra hlocked
    obtain ⟨t, hf | hf⟩ := hattended.spinlock o (by simpa using hlocked)
    · rcases hframe hf with rfl | hdeletes
      · exact hne rfl
      · cases hdeletes
    · rcases hframe hf with rfl | hdeletes
      · exact hne' rfl
      · cases hdeletes
  have hfree : rest = [] → f.locked = false → s.childrenLock = none := by
    intro hrest houtside
    by_contra hlocked
    obtain ⟨t, hlock⟩ := Option.ne_none_iff_exists'.mp hlocked
    obtain ⟨g, hg, hinside⟩ := hattended.lock t hlock
    have ht : t = .client n := by
      by_contra ht
      simp [hothers t ht] at hg
    obtain rfl : g = f := by simpa [ht, hstack, hrest] using hg
    cases houtside.symm.trans hinside
  cases f with
  | unrefLock o => exact hnext (by simp [next, hstack, hunlocked o])
  | unrefLocked o =>
      by_cases hstorage : (s.singletons o).storage = true
      · exact hnext (by simp [next, hstack, hstorage])
      · exact hnext (by simp [next, hstack, hstorage])
  | join o =>
      have hdone : (s.singletons o).future ≠ .running := by
        intro hrunning
        obtain ⟨t, hf⟩ := hattended.running o hrunning
        simpa [Frame.deletes] using hframe hf
      by_cases hpins : (s.singletons o).pins = 0
      · exact hnext (by simp [next, hstack, hdone, hpins])
      · exact hnext (by simp [next, hstack, hdone, hpins])
  | dropValue v =>
      by_cases hheld : ∃ r ∈ s.refs, r.1 = .value v
      · obtain ⟨⟨_, o⟩, hr, rfl⟩ := hheld
        exact ⟨.pick (.client n) o, by simp [Running], by simp [step, pick, hstack, hr]⟩
      · exact hnext (by simp [next, hstack, hheld])
  | gcLock | clearLock =>
      have hrest : rest = [] := (hsound.shaped.of_top hstack).1
      exact hnext (by simp [next, hstack, hfree hrest rfl])
  | clearDetach remaining =>
      rcases remaining with _ | ⟨o, remaining⟩
      · exact hnext (by simp [next, hstack])
      · have hspin := hunlocked o (by simp) (by simp)
        exact ⟨.pick (.client n) o, by simp [Running], by simp [step, pick, hstack, hspin]⟩
  | gcRound c caller =>
      by_cases hempty : s.disposedKeys = []
      · exact hnext (by simp [next, hstack, hempty])
      · exact hnext (by simp [next, hstack, hempty])
  | gcKeys current keys c caller =>
      rcases current with _ | k
      swap
      · exact hnext (by simp [next, hstack])
      rcases keys with _ | ⟨k, keys⟩
      · exact hnext (by simp [next, hstack])
      have hin : Frame.Found s.children (.gcKeys none (k :: keys) c caller) :=
        hfound _ (by rw [hstack]; exact .head _)
      have hk : k ∈ s.children := hin.1 k (.head _)
      obtain ⟨o, entry⟩ := Option.isSome_iff_exists.mp (AList.lookup_isSome.mpr hk)
      exact ⟨.pickKey (.client n) k, by simp [Running], by simp [step, pickKey, hstack, entry]⟩
  | unrefUnlock | unrefDelete | gcUnlock | clearUnlock => exact hnext (by simp [next, hstack])
  | _ =>
      rcases (h.top hstack).2 with hdestroys | hcollects
      · cases hdestroys
      · cases hcollects

/-- A state within a collection has the keys that are left. -/
theorem During.found [Inhabited K] (h₀ : Runs.Reach (step p) Sequential initial s₀)
    (hidle : Idle s₀) (h : During p s₀ n .garbageCollect s) :
    ∀ f ∈ s.stack (.client n), f.Found s.children := by
  refine h.along (I := fun s => ∀ f ∈ s.stack (.client n), f.Found s.children)
    (fun s₁ hs => ?_) fun m l m' hm _ hI hok hs => ?_
  · cases hs
    simp [Frame.Found]
  · obtain ⟨hsound, -, htracked⟩ := Reach.tracked (Reach.orderly (hm.reach h₀ hidle))
    exact hs.keysFound hsound htracked hok (hm.collecting h₀ hidle).releasing hI

/-- **Assertions.**  None of them fails where a lone client collects or clears. -/
theorem Releasing.asserted [Inhabited K] (h₀ : Runs.Reach (step p) Sequential initial s)
    (h : Releasing s n) (hfound : ∀ f ∈ s.stack (.client n), f.Found s.children) :
    Asserted s := by
  obtain ⟨hsound, hgone, htracked⟩ := Reach.tracked (Reach.orderly h₀)
  refine ⟨fun _ _ _ _ _ e _ hdisposed => (hgone e.2 (.inl hdisposed)).1,
    fun _ _ _ _ _ => (s.disposedKeys_eq hsound fun o ho => (htracked.disposed o ho).2.2).2,
    fun t keys c caller rest top k hk => ?_,
    fun o hdeleted => (hgone o (.inr (.inr (.inr hdeleted)))).1⟩
  obtain ⟨rfl, -⟩ := h.top top
  have hin : Frame.Found s.children (.gcKeys none keys c caller) :=
    hfound _ (by rw [top]; exact .head _)
  exact hin.1 k hk

/-- The assertions of the collection hold while it runs. -/
theorem During.asserted [Inhabited K] (h₀ : Runs.Reach (step p) Sequential initial s₀)
    (hidle : Idle s₀) (h : During p s₀ n .garbageCollect s) : Asserted s :=
  (h.collecting h₀ hidle).releasing.asserted (h.reach h₀ hidle) (h.found h₀ hidle)

/-- Until the collection is over it has a step to take. -/
theorem During.enabled [Inhabited K] (h₀ : Runs.Reach (step p) Sequential initial s₀)
    (hidle : Idle s₀) (h : During p s₀ n .garbageCollect s) :
    Idle s ∨ ∃ l, Running s l ∧ (step p s l).isSome :=
  have hr := h.reach h₀ hidle
  (h.collecting h₀ hidle).releasing.enabled (Reach.sound hr) (Reach.attended hr) (h.found h₀ hidle)

/-- **Termination.**  The steps of a collection are bounded by the `Ref`s and the
disposed singletons it begins with. -/
theorem garbageCollect_length_le [Inhabited K] (h₀ : Runs.Reach (step p) Sequential initial s₀)
    (hidle : Idle s₀) {ls : List (Label K)}
    (hrun : Runs.run (step p) s₀ (.start n .garbageCollect :: ls) = some s)
    (hok : ∀ l ∈ ls, ∀ n op, l ≠ .start n op) :
    ls.length ≤ 10 * s₀.refs.length + 6 * s₀.pendingGarbageCollect + 3 := by
  obtain ⟨s₁, hfirst, hrest⟩ := Option.bind_eq_some_iff.mp hrun
  have hmeets : Runs.RunMeets (step p) Running s₁ ls :=
    Runs.runMeets_of_labels fun l hl _ => hok l hl
  have hwork : s₁.work n = 10 * s₀.refs.length + 6 * s₀.disposed.card + 3 := by
    cases step_cases hfirst
    simp [State.work, Frame.work]
  have hle : ls.length + s.work n ≤ s₁.work n := by
    refine Runs.run_length_le (I := During p s₀ n .garbageCollect) (w := fun s => s.work n)
      (fun m l m' hm hok hs => ?_) ⟨s₁, hfirst, .refl⟩ hrest hmeets
    have hlt := (step_cases hs).work_lt (Reach.sound (hm.reach h₀ hidle)) hok
      (hm.collecting h₀ hidle)
    exact ⟨hm.next hok hs, hlt⟩
  rw [hwork] at hle
  exact (Nat.le_add_right _ _).trans hle

end SingletonStorage
