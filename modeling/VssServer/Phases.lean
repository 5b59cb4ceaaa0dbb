import VssServer.IdleStorage

/-!
# Histories in phases

Any number of clients can get and wait for values together, and any number of them can
give up what they hold together.  What the storage does not stand is that one drops
while another one gets, or that somebody is inside it during a `garbageCollect` or a
`clear`.  A history that keeps these apart is in one of three phases at any time, and
is accounted for as a sequential one is.

* `InPhase.orderly`: phases keep apart what has to be kept apart.
* `Step.inPhase`: every step stays in its phase, or begins the next one.
* `Reach.ledger`: the ledger of the storage holds in every history in phases.
-/

namespace SingletonStorage

variable {K : Type}

/-- What a client may begin while others give up what they hold. -/
def Op.givesUp : Op K → Bool
  | .drop _ | .release _ | .copy _ | .move _ => true
  | _ => false

/-- Every thread that is inside is in an `unref` or a destructor, and no task runs. -/
structure GivingUp (s : State K) : Prop where
  tasks : ∀ o, s.stack (.task o) = []
  frames : ∀ t, ∀ f ∈ s.stack t, f.destroys

/-- The side condition of a history in phases. -/
def Phased (s : State K) (l : Label K) : Prop :=
  ∀ n op, l = .start n op → Idle s ∨ op.gets ∧ Getting s ∨ op.givesUp ∧ GivingUp s

/-- The phases of such a history. -/
inductive InPhase (s : State K) : Prop
  | getting (getting : Getting s)
  | givingUp (givingUp : GivingUp s)
  | alone {n} (releasing : Releasing s n)

/-- No value is kept by a `shared_ptr` after its destruction. -/
def Unpinned (s : State K) : Prop :=
  ∀ v, (s.singletons v).valueGone = true → (s.singletons v).pins = 0

variable [DecidableEq K]

/-- What a history keeps that is accounted for. -/
structure Ledger (s : State K) : Prop where
  sound : Sound s
  gone : Gone s
  tracked : Tracked s
  once : ValuesOnce s
  values : Values s
  unpinned : Unpinned s

variable {p : Program K} {s s' : State K} {l : Label K}

omit [DecidableEq K] in
/-- A destructor waits for no value. -/
theorem Frame.waits_of_destroys {f : Frame K} (h : f.destroys) : f.waits = false := by
  cases f <;> first | rfl | cases h

omit [DecidableEq K] in
/-- No thread gets while another one destroys. -/
theorem InPhase.not_both (h : InPhase s) {t t' : Tid} {f g : Frame K} (hf : f ∈ s.stack t)
    (hg : g ∈ s.stack t') (hfgets : f.destroys = false ∧ f.collects = false)
    (hgdestroys : g.destroys) : False := by
  cases h with
  | getting hgetting => exact Calm.not_both (.inl hgetting) hf hg hfgets hgdestroys
  | givingUp hgiving => cases hfgets.1.symm.trans (hgiving.frames t f hf)
  | alone hrel => exact Calm.not_both (.inr ⟨_, hrel⟩) hf hg hfgets hgdestroys

omit [DecidableEq K] in
/-- The phases leave drops and `get`s apart. -/
theorem InPhase.apart (h : InPhase s) (hl : Phased s l) : Apart s l where
  recycle := by
    rintro o ⟨t, k, rest, -, top⟩ ⟨t', f, hf, hpending⟩
    have htop : .getRecycle k o ∈ s.stack t := by simp [top]
    exact h.not_both htop hf ⟨rfl, rfl⟩ (Frame.destroys_of_pending hpending)
  drop := by
    rintro o ⟨-, ⟨n, hl'⟩ | ⟨t, v, rest, -, top⟩⟩ ⟨t', f, hf, hhanded⟩
    · rcases hl n _ hl' with hidle | ⟨hgets, -⟩ | ⟨-, hgiving⟩
      · exact hidle.not_handed o ⟨t', f, hf, hhanded⟩
      · cases hgets
      · cases (Frame.of_handed hhanded).1.symm.trans (hgiving.frames t' f hf)
    · have htop : .dropValue v ∈ s.stack t := by simp [top]
      exact h.not_both hf htop (Frame.of_handed hhanded) rfl

omit [DecidableEq K] in
/-- The phases keep disposals and collections apart. -/
theorem InPhase.orderly (h : InPhase s) (hshape : Shaped s) (hl : Phased s l) :
    Orderly s l where
  toApart := h.apart hl
  dispose := by
    rintro o ⟨t, rest, -, top, -⟩ t' remaining hf
    cases h with
    | getting hgetting => simpa [Frame.collects] using (hgetting t' _ hf).2
    | givingUp hgiving => cases hgiving.frames t' _ hf
    | alone hrel => exact hrel.not_detaching hshape top t' remaining hf

/-- The threads that give up what they hold go on so. -/
theorem Step.givingUp (hs : Step p s l s') (hl : ∀ n op, l = .start n op → op.givesUp)
    (h : GivingUp s) : GivingUp s' := by
  have htop : ∀ {t f rest}, s.stack t = f :: rest → f.destroys :=
    fun {t f rest} top => h.frames t f (by simp [top])
  constructor
  · intro o
    have hother : ∀ {t f rest}, s.stack t = f :: rest → .task o ≠ t := by
      rintro t f rest top rfl
      cases (h.tasks o).symm.trans top
    cases hs.moves with
    | stays _ _ eq => rw [eq, h.tasks o]
    | starts _ _ eq => rw [eq, Function.update_of_ne (by simp), h.tasks o]
    | pushes _ top _ eq | leaves _ top _ eq =>
        rw [eq, Function.update_of_ne (hother top), h.tasks o]
    | launches _ top _ => cases htop top
  · intro t f hf
    rcases hs.enters hf with hold | ⟨-, henters⟩ | hlaunches
    · exact h.frames t f hold
    · cases henters with
      | startGet label | startValue label _ | startCollect label | startClear label =>
          cases hl _ _ label
      | createGet top _ | getFind top _ | getRecycle top _ | getCreate top _ | getInsert top
      | recycled _ top _ | inserted top _ | getRef top | createValue top _ _
      | waitDeferred top _ | gcLock top _ | clearLock top _ | gcNext top | gcKeys top _
      | gcErased top | gcDeleting _ top _ _ | gcUnlock top | clearCollected top _
      | clearDetach top | clearUnlock top => cases htop top
      | _ => rfl
    · cases hlaunches with
      | creating _ top _ => cases htop top

/-- Every step stays in its phase, or begins the next one. -/
theorem Step.inPhase (hs : Step p s l s') (hl : Phased s l) (h : InPhase s) : InPhase s' := by
  by_cases hstart : ∃ n op, l = .start n op
  · obtain ⟨n, op, rfl⟩ := hstart
    have hop : ∀ {good : Op K → Bool}, good op → ∀ n' op',
        Label.start n op = .start n' op' → good op' := by
      rintro good hgood n' op' heq
      cases heq
      exact hgood
    rcases hl n op rfl with hidle | ⟨hgets, hgetting⟩ | ⟨hgives, hgiving⟩
    · exact (hs.calm_of_start hidle).elim .getting fun ⟨_, hrel⟩ => .alone hrel
    · exact .getting (hs.stays_getting (hop hgets) hgetting)
    · exact .givingUp (hs.givingUp (hop hgives) hgiving)
  · have hgoes : ∀ n op, l ≠ .start n op := fun n op heq => hstart ⟨n, op, heq⟩
    cases h with
    | getting hgetting => exact .getting (hs.getting hgoes hgetting)
    | givingUp hgiving =>
        exact .givingUp (hs.givingUp (fun n op heq => absurd heq (hgoes n op)) hgiving)
    | alone hrel => exact .alone (hs.releasing hgoes hrel)

/-- Nobody waits while something is deleted. -/
theorem Step.unwatched (hs : Step p s l s') (h : InPhase s) {o : Ptr} (hd : Deletes s l o) :
    ∀ t, ∀ f ∈ s'.stack t, f.waits = false := by
  cases h with
  | getting hgetting => exact hs.deletes_unwatched (.inl hgetting) hd
  | alone hrel => exact hs.deletes_unwatched (.inr ⟨_, hrel⟩) hd
  | givingUp hgiving =>
      have hgoes : ∀ n op, l = .start n op → op.givesUp := by
        rintro n op rfl
        rcases hd with ⟨_, _, ⟨⟩, -⟩ | ⟨_, _, _, _, _, _, ⟨⟩, -⟩
      exact fun t f hf => Frame.waits_of_destroys ((hs.givingUp hgoes hgiving).frames t f hf)

/-- A destroyed value is not kept. -/
theorem Step.unpinned (hs : Step p s l s') (hvalues : Values s) (honce : ValuesOnce s)
    (h : Unpinned s) : Unpinned s' := by
  intro v hgone
  cases hs.object v with
  | same eq =>
      rw [eq] at hgone ⊢
      exact h v hgone
  | new _ _ _ _ eq => simp [eq] at hgone
  | alters eq step =>
      rw [eq] at hgone ⊢
      cases step with
      | release _ pinned => exact absurd (h v hgone) pinned
      | releaseLast _ last => simp [last.1]
      | joinLast _ _ last => exact last
      | @waitReady t keep rest top =>
          have halive := hvalues.waits t (.wait v keep) (by simp [top]) rfl v (.head _)
          cases (honce.gone v hgone).symm.trans (honce.alive v halive)
      | _ => exact h v hgone

/-- Every step that meets the side condition keeps the ledger. -/
theorem Step.ledger (hs : Step p s l s') (hl : Phased s l) (hphase : InPhase s)
    (h : Ledger s) : Ledger s' := by
  have hok := hphase.orderly h.sound.shaped hl
  exact
    { sound := hs.sound h.sound
      gone := hs.gone h.sound hok.toApart h.gone
      tracked := hs.tracked h.sound h.gone hok h.tracked
      once := hs.valuesOnce h.sound h.tracked h.once
      values := hs.values h.sound h.gone (fun _ => hs.unwatched hphase) h.once h.values
      unpinned := hs.unpinned h.values h.once h.unpinned }

/-- The ledger holds in every history in phases. -/
theorem Reach.ledger [Inhabited K] (h : Runs.Reach (step p) Phased initial s) :
    Ledger s ∧ InPhase s := by
  refine h.invariant (I := fun s => Ledger s ∧ InPhase s) ⟨?_, .getting fun _ _ hf => by cases hf⟩
    fun _ _ _ ⟨hledger, hphase⟩ hok hstep =>
      ⟨(step_cases hstep).ledger hok hphase hledger, (step_cases hstep).inPhase hok hphase⟩
  have hrefl : Runs.Reach (step p) Sequential (initial (K := K)) initial := .refl
  obtain ⟨hsound, hgone, htracked⟩ := Reach.tracked (Reach.orderly hrefl)
  exact ⟨hsound, hgone, htracked, Reach.valuesOnce (Reach.orderly hrefl), Reach.values hrefl,
    fun _ _ => rfl⟩

/-- Sequential histories are in phases. -/
theorem Reach.phased [Inhabited K] (h : Runs.Reach (step p) Sequential initial s) :
    Runs.Reach (step p) Phased initial s :=
  h.weaken (I := fun _ => True) (fun _ _ => trivial)
    fun _ _ _ _ hok _ n op hl => .inl (hok n op hl)

/-- Runs in which clients only get, wait, copy and move are in phases. -/
theorem Getting.runMeets (h : Getting s) {ls : List (Label K)}
    (hls : ∀ n op, .start n op ∈ ls → op.gets) : Runs.RunMeets (step p) Phased s ls :=
  Runs.runMeets_of_kept h fun _ hl _ hI =>
    ⟨fun n op heq => .inr (.inl ⟨hls n op (heq ▸ hl), hI⟩), fun _ hstep =>
      (step_cases hstep).stays_getting (fun n op heq => hls n op (heq ▸ hl)) hI⟩

omit [DecidableEq K] in
/-- An idle storage may begin to give up. -/
theorem Idle.givingUp (h : Idle s) : GivingUp s :=
  ⟨fun o => h (.task o), fun t f hf => by simp [h t] at hf⟩

/-- So are runs in which they only give up what they hold. -/
theorem GivingUp.runMeets (h : GivingUp s) {ls : List (Label K)}
    (hls : ∀ n op, .start n op ∈ ls → op.givesUp) : Runs.RunMeets (step p) Phased s ls :=
  Runs.runMeets_of_kept h fun _ hl _ hI =>
    ⟨fun n op heq => .inr (.inr ⟨hls n op (heq ▸ hl), hI⟩), fun _ hstep =>
      (step_cases hstep).givingUp (fun n op heq => hls n op (heq ▸ hl)) hI⟩

end SingletonStorage
