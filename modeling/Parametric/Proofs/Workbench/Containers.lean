import Parametric.Proofs.Workbench.Addition
import Parametric.Proofs.Workbench.Contributions
import Parametric.Proofs.Workbench.Staging
import Parametric.Proofs.Workbench.Tuned

/-!
# Bounds that are recorded

What changes the box around the children of a container leaves a request that puts a child in its
place (`Scheduler.Owes`), and serving that request records the box again, or collects what is needed
for it (`Accounts.serve`). The exceptions are a child that is removed, an arrival that another
request about the list of children displaces, and a request that fails (`Operation.Tells`). Without
them the bounds that are recorded for a container are the box around its children whenever nothing
waits (`bounds_settle`).
-/

namespace Parametric

namespace Request

variable {r : Request}

/-- A request puts its object in place: it moves the object, or reports one of the numbers that
place it. -/
def Places (r : Request) : Prop :=
  (r.kind = .hierarchy ∧ ∃ previous parent, r.payload = .hierarchy previous parent) ∨
    r.kind = .property ∧ r.target.property ∈ Names.geometry

theorem Places.absorb (r : Request) (priority : Priority) (payload : Payload)
    (_ : payload.isRecompute) (h : r.Places) : (r.absorb priority payload).Places := by
  rcases h with ⟨hkind, previous, parent, hpayload⟩ | h
  · exact .inl ⟨hkind, previous, parent, by simp [Request.absorb, hpayload, Payload.isRecompute]⟩
  · exact .inr h

/-- What is asked for under the name of a number that places an object puts it in place. -/
theorem Addressed.places (h : r.Addressed) (hkind : r.kind ≠ .recompute)
    (hname : r.target.property ∈ Names.geometry) : r.Places :=
  .inr ⟨((h.of_geometry hname).resolve_left hkind).1, hname⟩

/-- A request that puts its object in place is about the list of its children, or about a number
that places it. -/
theorem Addressed.target_of_places (h : r.Addressed) (hplaces : r.Places) :
    r.target.property = Names.children ∨ r.target.property ∈ Names.geometry := by
  rcases hplaces with ⟨hkind, previous, parent, hpayload⟩ | ⟨-, hname⟩
  · have haddressed := h (by simp [hkind])
    rw [hkind, hpayload] at haddressed
    exact .inl (congrArg Entity.property (Except.ok.inj haddressed)).symm
  · exact .inr hname

end Request

namespace Scheduler

variable {s : Scheduler} {t : Entity} {asked : Change → Prop} {c : ObjectId}

/-! ## Requests that are told -/

/-- All that waits is about what its kind and payload say, and no recompute was submitted. -/
structure Regular (s : Scheduler) : Prop where
  heeds : s.Heeds Request.Addressed
  submitted : ∀ c ∈ s.inbox.unread, c.request.kind ≠ .recompute

theorem Serves.regular (h : s.Serves Request.Addressed) : s.Regular :=
  ⟨h.heeds, by simp [h.unread]⟩

theorem lasting_regular : Lasting asked Regular := by
  have hheeds : Lasting asked (Heeds Request.Addressed) :=
    lasting_heeds Request.stable_addressed fun _ htarget => Request.addressed_of_target htarget
  refine ⟨fun h => h.heeds.sound, fun hgraph h => ⟨hheeds.rewire hgraph h.heeds, h.submitted⟩,
    fun {s c} hc h => ⟨hheeds.propagate hc h.heeds, ?_⟩,
    fun {s c} hc h => ⟨hheeds.submit hc h.heeds, ?_⟩⟩
  · rw [(afterChange_spec h.heeds.sound c).2.1]
    exact h.submitted
  · rcases s.submit_eq c with hrefused | ⟨target, hkind, -, htaken⟩
    · rw [hrefused]
      exact h.submitted
    · rw [htaken]
      intro d hd
      rcases List.mem_append.1 hd with hd | hd
      · exact h.submitted d hd
      · rw [List.mem_singleton.1 hd]
        exact hkind

/-- News of a number that places an object wait until they are served. -/
theorem lasting_places (hname : t.property ∈ Names.geometry) :
    Lasting asked fun s => s.Regular ∧ s.WaitsAs t Request.Places where
  sound h := h.1.heeds.sound
  rewire hgraph h :=
    have hregular : Lasting asked Regular := lasting_regular
    ⟨hregular.rewire hgraph h.1, h.2⟩
  propagate {s c} hc h := by
    refine ⟨lasting_regular.propagate hc h.1, ?_⟩
    rcases s.afterChange_eq c with hrefused | ⟨target, hkind, htarget, htaken⟩
    · rw [hrefused]
      exact h.2
    · rw [htaken]
      refine .schedule (s := s.accepted) Request.Places.absorb
        (h.1.heeds.sound.numbered.cons target c.kind c.payload c.priority) ?_
      split
      next heq =>
        have heq : target = t := heq
        subst heq
        exact (Request.addressed_of_target htarget).places hkind hname
      next => exact h.2
  submit {s c} hc h := by
    refine ⟨lasting_regular.submit hc h.1, ?_⟩
    rcases s.submit_eq c with hrefused | ⟨target, -, -, htaken⟩
    · rw [hrefused]
      exact h.2
    · rw [htaken]
      exact h.2

theorem Regular.places_readInbox (h : s.Regular) (hname : t.property ∈ Names.geometry)
    (hwaits : s.WaitsAs t Request.Places) : s.readInbox.WaitsAs t Request.Places :=
  .foldl_schedule (s := { s with inbox := { s.inbox with unread := [] } }) Request.Places.absorb
    h.heeds.sound.numbered
    (fun c hc heq => (h.heeds.unread c hc).places (h.submitted c hc) (by
      rw [← heq] at hname
      exact hname)) hwaits

/-- News of a number that places an object wait once they are announced. -/
theorem places_announced (hs : Numbered s.queue s.inbox.unread s.inbox.nextId) {e : Entity}
    (hname : e.property ∈ Names.geometry) (value : Option Value) (priority : Priority) :
    (s.announced e value priority).WaitsAs e Request.Places := by
  refine .schedule (s := s.accepted) Request.Places.absorb
    (hs.cons e .property (.property e.property value) priority) ?_
  rw [if_pos rfl]
  exact .inr ⟨rfl, hname⟩

/-- A request waits that puts an object of the container `c` in place. -/
def Owes (s : Scheduler) (objects : ObjectTable) (c : ObjectId) : Prop :=
  ∃ t : Entity, objects.containerOf? t.object = some c ∧ s.WaitsAs t Request.Places

end Scheduler

namespace Scene

variable {s s' : Scene} {r : Request}

/-- What puts an object in place and is carried out tells of it. -/
theorem bounds_applyChange (hkeyed : s.objects.Keyed) (hplaces : r.Places) (hr : r.Addressed)
    {outcome : Outcome} (h : s.applyChange r = .ok (outcome, s')) :
    outcome.bounds = s'.contribution? r.target.object := by
  obtain ⟨o, ho, h⟩ := Run.ok_of_bind h
  rcases hplaces with ⟨hkind, previous, parent, hpayload⟩ | ⟨hkind, hname⟩
  · rw [hkind, hpayload] at h
    cases h
    rw [← hkeyed _ o (get?_of_require ho)]
  · obtain ⟨-, value, hpayload⟩ :=
      (hr.of_geometry hname).resolve_left (by simp [hkind])
    have hplain : Names.geometry.contains r.target.property = true := List.contains_iff_mem.2 hname
    rw [hkind, hpayload] at h
    cases value with
    | none =>
      cases h
      exact if_pos hplain
    | some v =>
      obtain ⟨⟨bounds, scene⟩, hwrite, h⟩ := Run.ok_of_bind h
      cases h
      exact (bounds_write hwrite).1.trans (if_pos hplain)

/-- An object that is there can be moved. -/
theorem applyChange_ne_error {previous parent : Option ObjectId}
    (hthere : (s.get? r.target.object).isSome) (hkind : r.kind = .hierarchy)
    (hpayload : r.payload = .hierarchy previous parent) (e : ApplyError) :
    s.applyChange r ≠ .error e := by
  obtain ⟨o, ho⟩ := Option.isSome_iff_exists.1 hthere
  have hrequire : s.require r.target.object = .ok o := by rw [require, ho]
  unfold applyChange
  rw [Run.bind_of_ok hrequire, hkind, hpayload]
  intro h
  cases h

end Scene

namespace Workbench

open Scheduler Scene

variable {σ : Type} {w : Workbench σ} {vars : VariableTable} {d : Drain (Bench σ)} {c : ObjectId}
  {r : Request}

/-! ## Serving requests -/

/-- A request that puts an object in place tells of it, or fails. -/
theorem Bench.Served.tells {s s' : Scene} {result : Except ApplyError Outcome}
    {left : Option ObjectId} (h : Bench.Served s r result left s') (hkeyed : s.objects.Keyed)
    (hplaces : r.Places) (hr : r.Addressed) (hthere : (s.get? r.target.object).isSome)
    (hvariable : ¬ r.target.isVariable) :
    told result = s'.contribution? r.target.object ∨
      r.target.property ∈ Names.geometry ∧ ∃ e, result = .error e := by
  have hkind : r.kind ≠ .recompute := by
    rcases hplaces with ⟨hkind, -⟩ | ⟨hkind, -⟩ <;> simp [hkind]
  cases h with
  | kept _ hwhy =>
    rcases hwhy with hwhy | hwhy | hwhy | ⟨e, rfl, hwhy⟩
    · exact absurd hwhy hvariable
    · exact absurd hwhy hkind
    · rw [hwhy] at hthere
      cases hthere
    · rcases hplaces with ⟨hmove, previous, parent, hpayload⟩ | ⟨-, hname⟩
      · rcases hwhy with (hwhy | hwhy) | hwhy
        · exact absurd hwhy hkind
        · cases hmove.symm.trans hwhy
        · exact absurd hwhy (applyChange_ne_error hthere hmove hpayload e)
      · exact .inr ⟨hname, e, rfl⟩
  | written hevaluates hwrite =>
    have hname : r.target.property ∈ Names.geometry := by
      rcases hplaces with ⟨hmove, -⟩ | ⟨-, hname⟩
      · rcases hevaluates with hevaluates | hevaluates <;> cases hmove.symm.trans hevaluates
      · exact hname
    exact .inl ((bounds_write hwrite).1.trans (if_pos (List.contains_iff_mem.2 hname)))
  | changed hchange => exact .inl (bounds_applyChange hkeyed hplaces hr hchange)

theorem Bench.apply_variable (b : Bench σ) (vars : VariableTable) (h : r.target.isVariable) :
    (b.apply vars r).2 = b := by
  unfold Bench.apply
  rw [if_pos h]

/-- A request failed that should have told of an object in the container `c`. -/
def Missed (failures : List Failure) (objects : ObjectTable) (c : ObjectId) : Prop :=
  ∃ f ∈ failures, f.target.property ∈ Names.geometry ∧
    objects.containerOf? f.target.object = some c

/-- In a drain the bounds that are recorded for `c` are the box around its children, or the
container waits to be recalculated, or what is needed for that waits or failed. -/
structure Accounts (c : ObjectId) (d : Drain (Bench σ)) : Prop where
  serves : d.scheduler.Serves Request.Addressed
  inOrder : d.state.scene.objects.InOrder
  owner : d.state.scene.objects.containerOf? Entity.variableOwner ≠ some c
  confirms : ∀ parent latest, d.scheduler.bounds.parents[parent]? = some latest →
    d.state.scene.Confirms parent latest
  atOnce : d.scheduler.settings.coalesceBounds = false → d.scheduler.bounds.parents = ∅
  recorded : ∀ b, d.state.scene.containerBounds[c]? = some b →
    (d.state.scene.get? c).isSome ∧ (b = d.state.scene.around c ∨
      (d.scheduler.bounds.parents[c]?).isSome ∨ d.scheduler.Owes d.state.scene.objects c ∨
      Missed d.report.failed d.state.scene.objects c)

namespace Accounts

/-- After a request, what is recorded for the container is right, or the container was told of, or
it is as before. -/
theorem recorded_apply (h : Accounts c d) {queue : Queue}
    (hpop : d.scheduler.queue.pop = (some r, queue))
    (htruthful : r.Truthful d.state.scene (d.state.apply vars r).2.scene) (s : Scheduler)
    (failures : List Failure)
    (hkept : ∀ t, WaitsAs { d.scheduler with queue } t Request.Places →
      s.WaitsAs t Request.Places)
    (hold : ∀ f ∈ d.report.failed, f ∈ failures)
    (hnew : ∀ e, (d.state.apply vars r).1 = .error e → ∃ f ∈ failures, f.target = r.target) :
    let scene := (d.state.apply vars r).2.scene
    ∃ left, Carries r.target.object (told (d.state.apply vars r).1) left d.state.scene scene ∧
      scene.objects.containerOf? Entity.variableOwner ≠ some c ∧
      ∀ b, scene.containerBounds[c]? = some b → (scene.get? c).isSome ∧ (b = scene.around c ∨
        (∃ y b', told (d.state.apply vars r).1 = some ⟨c, y, b'⟩) ∨
        (d.scheduler.bounds.parents[c]?).isSome ∨ s.Owes scene.objects c ∨
        Missed failures scene.objects c) := by
  intro scene
  obtain ⟨hr, -⟩ := h.serves.pop hpop
  obtain ⟨left, hserved, -⟩ := d.state.apply_served h.inOrder.keyed vars r
  have hcarries := hserved.carries h.inOrder.keyed h.inOrder.listed hr.named htruthful
  refine ⟨left, hcarries, ?_, fun b hb => ?_⟩
  · by_cases hvariable : r.target.object = Entity.variableOwner
    · have hsame := d.state.apply_variable vars (r := r) (decide_eq_true hvariable)
      rw [show scene = d.state.scene from congrArg Bench.scene hsame]
      exact h.owner
    · have hget := hcarries.others Entity.variableOwner (Ne.symm hvariable)
      rw [show scene.objects.containerOf? Entity.variableOwner = _ from
        congrArg (·.bind Object.container) hget]
      exact h.owner
  · rw [show scene.containerBounds = _ from hcarries.records, getElem?_recorded] at hb
    split at hb
    next hleft =>
      cases hb
      exact ⟨(hcarries.isSome c).trans (hcarries.there c hleft), .inl rfl⟩
    next hleft =>
      obtain ⟨hthere, hbefore⟩ := h.recorded b hb
      refine ⟨(hcarries.isSome c).trans hthere, ?_⟩
      rcases hcarries.around h.inOrder.listed hthere with hout | htold | ⟨hchildren, hboxes⟩
      · exact absurd hout hleft
      · exact .inr (.inl htold)
      · -- The same children lie in the container, and their boxes are the same.
        have hplace : ∀ x, d.state.scene.objects.containerOf? x = some c →
            scene.objects.containerOf? x = some c := fun x hx =>
          (hcarries.listed c x).1 (hchildren ▸ (h.inOrder.listed c x).2 hx)
        rcases hbefore with rfl | hpending | ⟨t, hin, m, hm, hplaces⟩ | ⟨f, hf, hname, hin⟩
        · exact .inl (around_congr hchildren hboxes).symm
        · exact .inr (.inr (.inl hpending))
        · obtain ⟨hpopped, -, hpendingFor⟩ := h.serves.sound.numbered.indexed.pop_some hpop
          by_cases ht : r.target = t
          · subst ht
            obtain rfl : m = r := Option.some.inj (hm.symm.trans hpopped)
            obtain ⟨b', -, hcontribution⟩ := exists_contribution (hplace _ hin)
            obtain ⟨o, ho, -⟩ := Option.bind_eq_some_iff.1 hin
            have hvariable : ¬ m.target.isVariable := fun hvariable =>
              h.owner (of_decide_eq_true hvariable ▸ hin)
            rcases hserved.tells h.inOrder.keyed hplaces hr (by rw [Scene.get?, ho]; rfl)
              hvariable with htold | ⟨hname, e, herror⟩
            · exact .inr (.inl ⟨_, b', htold.trans hcontribution⟩)
            · obtain ⟨f, hf, htarget⟩ := hnew e herror
              exact .inr (.inr (.inr (.inr
                ⟨f, hf, htarget ▸ hname, htarget ▸ hplace _ hin⟩)))
          · refine .inr (.inr (.inr (.inl ⟨t, hplace _ hin, hkept t ⟨m, ?_, hplaces⟩⟩)))
            rwa [hpendingFor, if_neg ht]
        · exact .inr (.inr (.inr (.inr ⟨f, hold f hf, hname, hplace _ hin⟩)))

theorem serve (h : Accounts c d) {queue : Queue}
    (hpop : d.scheduler.queue.pop = (some r, queue))
    (htruthful : r.Truthful d.state.scene (d.state.apply vars r).2.scene) :
    Accounts c (Drain.serve (applier vars)
      { d with scheduler := { d.scheduler with queue } } r) := by
  let popped : Drain (Bench σ) := { d with scheduler := { d.scheduler with queue } }
  obtain ⟨-, hpopped⟩ := h.serves.pop hpop
  cases hresult : (d.state.apply vars r).1 with
  | error e =>
    obtain ⟨left, hcarries, howner, hrecorded⟩ := h.recorded_apply hpop htruthful
      popped.scheduler (d.report.failed ++ [⟨r.id, r.root, r.target, e⟩])
      (fun t ht => ht) (fun f hf => List.mem_append_left _ hf)
      fun _ _ => ⟨_, List.mem_append_right _ (List.mem_singleton_self _), rfl⟩
    rw [hresult] at hcarries hrecorded
    rw [serve_of_error (d := popped) hresult]
    exact {
      serves := hpopped
      inOrder := ⟨hcarries.keyed, hcarries.listed⟩
      owner := howner
      confirms := fun parent latest hlatest =>
        hcarries.confirms h.inOrder.listed (h.confirms parent latest hlatest) nofun
      atOnce := h.atOnce
      recorded := fun b hb => by
        obtain ⟨hthere, hcases⟩ := hrecorded b hb
        exact ⟨hthere, hcases.imp_right fun hrest => hrest.resolve_left nofun⟩ }
  | ok o =>
    obtain ⟨hsettings, hbounds⟩ := popped.scheduler.settings_cascade r o
    have hcascaded : (popped.scheduler.cascade r o).Serves Request.Addressed :=
      hpopped.cascade Request.stable_addressed r o
    obtain ⟨left, hcarries, howner, hrecorded⟩ := h.recorded_apply hpop htruthful
      (popped.scheduler.cascade r o) d.report.failed
      (fun t ht => ht.cascade Request.Places.absorb hpopped.sound.numbered r o) (fun f hf => hf)
      fun e herror => by rw [hresult] at herror; cases herror
    rw [hresult] at hcarries hrecorded
    obtain ⟨value, bounds⟩ := o
    cases bounds with
    | none =>
      rw [serve_of_none (d := popped) hresult]
      exact {
        serves := hcascaded
        inOrder := ⟨hcarries.keyed, hcarries.listed⟩
        owner := howner
        confirms := fun parent latest hlatest => by
          have hlatest : (popped.scheduler.cascade r ⟨value, none⟩).bounds.parents[parent]? =
            some latest := hlatest
          rw [hbounds] at hlatest
          exact hcarries.confirms h.inOrder.listed (h.confirms parent latest hlatest) nofun
        atOnce := fun hmode => by
          show (popped.scheduler.cascade r ⟨value, none⟩).bounds.parents = ∅
          rw [hbounds]
          exact h.atOnce (hsettings ▸ hmode)
        recorded := fun b hb => by
          obtain ⟨hthere, hcases⟩ := hrecorded b hb
          refine ⟨hthere, hcases.imp_right fun hrest => ?_⟩
          show (((popped.scheduler.cascade r ⟨value, none⟩).bounds.parents)[c]?).isSome ∨ _
          rw [hbounds]
          exact hrest.resolve_left nofun }
    | some k =>
      have hlatest : (d.state.apply vars r).2.scene.Confirms k.parent
          ((∅ : ChildBounds).insert k.child k.bounds) :=
        hcarries.confirms_insert h.inOrder.listed (d.state.scene.confirms_empty _) rfl
      rw [serve_of_some (d := popped) hresult]
      by_cases hmode : d.scheduler.settings.coalesceBounds = true
      · -- The contribution is collected.
        have hcollects : (appliedTo popped vars r ⟨value, some k⟩).contribute (applier vars) k =
            { appliedTo popped vars r ⟨value, some k⟩ with
              scheduler := { popped.scheduler.cascade r ⟨value, some k⟩ with
                bounds := d.scheduler.bounds.add k } } := by
          have hmode : (popped.scheduler.cascade r ⟨value, some k⟩).settings.coalesceBounds =
            true := by rw [hsettings]; exact hmode
          rw [show d.scheduler.bounds = (popped.scheduler.cascade r ⟨value, some k⟩).bounds from
            hbounds.symm]
          exact if_pos hmode
        rw [hcollects]
        exact {
          serves := ⟨⟨hcascaded.sound.graph, hcascaded.sound.numbered⟩, hcascaded.unread,
            hcascaded.all⟩
          inOrder := ⟨hcarries.keyed, hcarries.listed⟩
          owner := howner
          confirms := fun parent latest hpending => by
            have hpending : (d.scheduler.bounds.parents.insert k.parent
              ((d.scheduler.bounds.parents[k.parent]?.getD ∅).insert k.child k.bounds))[parent]? =
                some latest := hpending
            rw [Table.getElem?_insert] at hpending
            split at hpending
            next hparent =>
              cases hpending
              subst hparent
              refine hcarries.confirms_insert h.inOrder.listed ?_ rfl
              cases hold : d.scheduler.bounds.parents[k.parent]? with
              | none => exact d.state.scene.confirms_empty _
              | some latest => exact h.confirms _ latest hold
            next hparent =>
              refine hcarries.confirms h.inOrder.listed (h.confirms parent latest hpending)
                fun y b hk => hparent ?_
              cases hk
              rfl
          atOnce := fun hfalse => by
            have hfalse : (popped.scheduler.cascade r ⟨value, some k⟩).settings.coalesceBounds =
              false := hfalse
            rw [hsettings] at hfalse
            cases hmode.symm.trans hfalse
          recorded := fun b hb => by
            obtain ⟨hthere, hcases⟩ := hrecorded b hb
            refine ⟨hthere, hcases.imp_right fun hrest => ?_⟩
            show ((d.scheduler.bounds.parents.insert k.parent
              ((d.scheduler.bounds.parents[k.parent]?.getD ∅).insert k.child
                k.bounds))[c]?).isSome ∨ _
            rw [Table.getElem?_insert]
            split
            next => exact .inl rfl
            next hparent =>
              refine hrest.resolve_left ?_
              rintro ⟨y, b', hk⟩
              cases hk
              exact hparent rfl }
      · -- The container is recalculated at once.
        rw [Bool.not_eq_true] at hmode
        have hnothing := h.atOnce hmode
        have hflushes : (appliedTo popped vars r ⟨value, some k⟩).contribute (applier vars) k =
            (appliedTo popped vars r ⟨value, some k⟩).flush (applier vars) k.parent
              ((∅ : ChildBounds).insert k.child k.bounds) := by
          refine if_neg ?_
          rw [show (appliedTo popped vars r ⟨value, some k⟩).scheduler.settings = _ from hsettings]
          exact Bool.not_eq_true _ ▸ hmode
        obtain ⟨hscheduler, -, hfailures, n, hstate⟩ := flush_spec vars
          (d := appliedTo popped vars r ⟨value, some k⟩) (c := k.parent) fun _ => hlatest
        rw [hflushes]
        generalize (appliedTo popped vars r ⟨value, some k⟩).flush (applier vars) k.parent
          ((∅ : ChildBounds).insert k.child k.bounds) = flushed at hscheduler hfailures hstate
        obtain ⟨scheduler, state, report⟩ := flushed
        dsimp only at hscheduler hfailures hstate
        subst hscheduler hstate
        have hempty : (popped.scheduler.cascade r ⟨value, some k⟩).bounds.parents = ∅ := by
          rw [hbounds]
          exact hnothing
        exact {
          serves := hcascaded
          inOrder := ⟨hcarries.keyed, hcarries.listed⟩
          owner := howner
          confirms := fun parent latest hpending => by
            have hpending : (popped.scheduler.cascade r
              ⟨value, some k⟩).bounds.parents[parent]? = some latest := hpending
            simp [hempty] at hpending
          atOnce := fun _ => hempty
          recorded := fun b hb => by
            have hb : ((d.state.apply vars r).2.scene.refreshed
              (d.state.apply vars r).2.scene.containerBounds k.parent)[c]? = some b := hb
            rw [getElem?_refreshed] at hb
            split at hb
            next hparent =>
              cases hb
              exact ⟨hparent.2, .inl rfl⟩
            next hparent =>
              obtain ⟨hthere, hcases⟩ := hrecorded b hb
              refine ⟨hthere, hcases.imp_right fun hrest => ?_⟩
              rcases hrest with ⟨y, b', hk⟩ | hpending | howes | hmissed
              · cases hk
                exact absurd ⟨rfl, hthere⟩ hparent
              · simp [hnothing] at hpending
              · exact .inr (.inl howes)
              · refine .inr (.inr ?_)
                rw [show (reporting ⟨_, _, report⟩ r).report.failed = d.report.failed from
                  hfailures]
                exact hmissed }

theorem serveAll (vars : VariableTable) (limit : Nat)
    (h : Accounts c { d with scheduler := d.scheduler.readInbox })
    (htruthful : ∀ p ∈ passagesFrom vars limit d, p.Truthful) :
    Accounts c (Drain.serveAll (applier vars) limit d) := by
  induction limit generalizing d with
  | zero => exact h
  | succ limit ih =>
    unfold passagesFrom at htruthful
    unfold Drain.serveAll
    dsimp only at htruthful ⊢
    cases hpop : d.scheduler.readInbox.queue.pop with
    | mk request queue =>
      cases request with
      | none =>
        have hpendingFor := (h.serves.sound.numbered.indexed.pop_none hpop).2
        exact { h with
          serves := ⟨(Drain.keeps_pop_none h.serves.sound hpop).sound, h.serves.unread,
            fun t r hr => h.serves.all t r (hpendingFor t ▸ hr)⟩
          recorded := fun b hb => by
            obtain ⟨hthere, hcases⟩ := h.recorded b hb
            refine ⟨hthere, hcases.imp_right (Or.imp_right (Or.imp_left ?_))⟩
            rintro ⟨t, hin, m, hm, hplaces⟩
            exact ⟨t, hin, m, (hpendingFor t).trans hm, hplaces⟩ }
      | some r =>
        rw [hpop] at htruthful
        obtain ⟨hfirst, hrest⟩ := List.forall_mem_cons.1 htruthful
        have hserved := h.serve hpop hfirst
        refine ih ?_ hrest
        rw [readInbox_eq hserved.serves.unread]
        exact hserved

/-- At the end of a drain all containers are recalculated that wait for it. -/
theorem flushAll (vars : VariableTable) (h : Accounts c d) :
    let flushed := d.flushAll (applier vars)
    flushed.scheduler = { d.scheduler with bounds := {} } ∧
    flushed.state.scene.objects = d.state.scene.objects ∧
    ∀ b, flushed.state.scene.containerBounds[c]? = some b → (flushed.state.scene.get? c).isSome ∧
      (b = flushed.state.scene.around c ∨
        flushed.scheduler.Owes flushed.state.scene.objects c ∨
        Missed flushed.report.failed flushed.state.scene.objects c) := by
  obtain ⟨hscheduler, -, hfailed, n, hstate⟩ := flushAll_spec vars (d := d)
    fun parent latest hlatest _ => h.confirms parent latest hlatest
  generalize d.flushAll (applier vars) = flushed at hscheduler hfailed hstate
  obtain ⟨scheduler, state, report⟩ := flushed
  dsimp only at hscheduler hfailed hstate ⊢
  subst hscheduler hstate
  refine ⟨rfl, rfl, fun b hb => ?_⟩
  have hb : (d.scheduler.bounds.parents.keys.foldl d.state.scene.refreshed
    d.state.scene.containerBounds)[c]? = some b := hb
  rw [getElem?_foldl_refreshed] at hb
  split at hb
  next hpending =>
    cases hb
    exact ⟨hpending.2, .inl rfl⟩
  next hpending =>
    obtain ⟨hthere, hcases⟩ := h.recorded b hb
    refine ⟨hthere, hcases.imp_right fun hrest => ?_⟩
    rw [hfailed]
    refine hrest.resolve_left fun hsome => hpending ⟨Table.mem_keys_iff.2 hsome, hthere⟩

end Accounts

/-! ## Between operations -/

/-- The bounds that are recorded for `c` are the box around its children, or what is needed for that
waits. -/
structure Told (c : ObjectId) (w : Workbench σ) : Prop where
  regular : w.scheduler.Regular
  bounds : w.scheduler.bounds = {}
  inOrder : w.scene.objects.InOrder
  owner : w.scene.objects.containerOf? Entity.variableOwner ≠ some c
  recorded : ∀ b, w.scene.containerBounds[c]? = some b → (w.scene.get? c).isSome ∧
    (b = w.scene.around c ∨ w.scheduler.Owes w.scene.objects c)

/-- The scheduler when all that was asked for is known: after an operation, or for a drain before it
serves anything. -/
def Operation.asking (w : Workbench σ) : Operation → Scheduler
  | .act .drain => w.scheduler.readInbox
  | op => (op.run w).scheduler

/-- Objects that are added are new, a value that is written changes bounds only under the name of a
number that places an object, and a drain serves only truthful requests. -/
structure Operation.Open (w : Workbench σ) (op : Operation) : Prop where
  new : ∀ o, op = .addObject o → w.scene.get? o.id = none
  plain : ∀ e, op.Sets e → (op.run w).scene.boundsOf? e.object ≠ w.scene.boundsOf? e.object →
    e.property ∈ Names.geometry
  truthful : op = .act .drain → ∀ p ∈ w.passages, p.Truthful

/-- No child of `c` is removed; the request that brings it to `c` is not displaced by one that does
not move it; it is not the one object that requests pass over; and no request about a number that
places it fails. -/
structure Operation.Tells (c : ObjectId) (w : Workbench σ) (op : Operation) : Prop where
  stay : ∀ id, op = .removeObject id → id ∉ w.scene.objects.childrenOf c
  arrive : ∀ x ∈ w.scene.objects.childrenOf c,
    w.scheduler.WaitsAs ⟨x, Names.children⟩ Request.Places →
    (op.asking w).WaitsAs ⟨x, Names.children⟩ Request.Places
  owner : ∀ o, op = .addObject o → o.container = some c → o.id ≠ Entity.variableOwner
  succeed : op = .act .drain → ∀ f ∈ w.drain.1.failed, f.target.property ∈ Names.geometry →
    f.target.object ∉ w.drain.2.scene.objects.childrenOf c

theorem Operation.asking_eq {op : Operation} (hop : op ≠ .act .drain) :
    op.asking w = (op.run w).scheduler := by
  unfold asking
  split
  · exact absurd rfl hop
  · rfl

/-- When an operation writes a value under the name of a number that places its object, news of it
wait. -/
theorem places_of_sets {op : Operation} {e : Entity}
    (hs : Numbered w.scheduler.queue w.scheduler.inbox.unread w.scheduler.inbox.nextId)
    (hset : op.Sets e) (hname : e.property ∈ Names.geometry) :
    (op.run w).scene = w.scene ∨ (op.run w).scheduler.WaitsAs e Request.Places := by
  cases op with
  | act a =>
    cases a with
    | setFormula object property source =>
      obtain rfl : e = ⟨object, property⟩ := hset
      have h := setsFormula w object property source
      show ((setFormula object property source).run w).2.scene = w.scene ∨
        ((setFormula object property source).run w).2.scheduler.WaitsAs _ _
      generalize (setFormula object property source).run w = outcome at h ⊢
      obtain ⟨result, w'⟩ := outcome
      cases h with
      | refused | cycle | failed => exact .inl rfl
      | written _ _ hbound _ _ =>
        obtain ⟨hqueue, hinbox⟩ := frame_replaceProducers hbound
        exact .inr (places_announced (by rw [← hqueue, ← hinbox] at hs; exact hs) hname _ _)
    | setValue object property v priority =>
      obtain rfl : e = ⟨object, property⟩ := hset
      show ((setValue object property v priority).run w).2.scene = w.scene ∨
        ((setValue object property v priority).run w).2.scheduler.WaitsAs _ _
      rw [run_setValue]
      cases (w.detached ⟨object, property⟩).scene.write ⟨object, property⟩ v with
      | error e => exact .inl (scene_detached w _)
      | ok written =>
        rw [← queue_detached w ⟨object, property⟩, ← inbox_detached w ⟨object, property⟩] at hs
        exact .inr (places_announced hs hname _ _)
    | _ => exact hset.elim
  | _ => exact hset.elim

namespace Told

/-- What puts an object in place goes on waiting while no arrival is displaced, and no object leaves
the container. -/
theorem owes (h : Told c w) (howes : w.scheduler.Owes w.scene.objects c) {s : Scheduler}
    {objects : ObjectTable}
    (hplace : ∀ x, w.scene.objects.containerOf? x = some c → objects.containerOf? x = some c)
    (harrive : ∀ x ∈ w.scene.objects.childrenOf c,
      w.scheduler.WaitsAs ⟨x, Names.children⟩ Request.Places →
      s.WaitsAs ⟨x, Names.children⟩ Request.Places)
    (hnumber : ∀ t : Entity, t.property ∈ Names.geometry →
      w.scheduler.WaitsAs t Request.Places → s.WaitsAs t Request.Places) :
    s.Owes objects c := by
  obtain ⟨t, hin, r, hr, hplaces⟩ := howes
  refine ⟨t, hplace _ hin, ?_⟩
  have htarget : r.target = t := h.regular.heeds.sound.numbered.indexed.target_eq hr
  rcases (h.regular.heeds.queued t r hr).target_of_places hplaces with hchildren | hname
  · obtain ⟨x, property⟩ := t
    have hproperty : property = Names.children := by
      rw [← hchildren, htarget]
    subst hproperty
    exact harrive x ((h.inOrder.listed c x).2 hin) ⟨r, hr, hplaces⟩
  · exact hnumber t (htarget ▸ hname) ⟨r, hr, hplaces⟩

theorem drain (h : Told c w) (hopen : Operation.Open w (.act .drain))
    (htells : Operation.Tells c w (.act .drain)) : Told c w.drain.2 := by
  have hreadBounds := w.scheduler.settings_readInbox.2
  have hstart : Accounts c { (⟨w.scheduler, w.bench, {}⟩ : Drain (Bench σ)) with
      scheduler := w.scheduler.readInbox } := {
    serves := h.regular.heeds.readInbox Request.stable_addressed
    inOrder := h.inOrder
    owner := h.owner
    confirms := fun parent latest hlatest => by
      have hlatest : w.scheduler.readInbox.bounds.parents[parent]? = some latest := hlatest
      simp [hreadBounds, h.bounds] at hlatest
    atOnce := fun _ => by
      show w.scheduler.readInbox.bounds.parents = ∅
      rw [hreadBounds, h.bounds]
    recorded := fun b hb => by
      obtain ⟨hthere, hcases⟩ := h.recorded b hb
      refine ⟨hthere, hcases.imp_right fun howes => .inr (.inl ?_)⟩
      exact h.owes howes (fun x hx => hx) htells.arrive
        fun t hname hwaits => h.regular.places_readInbox hname hwaits }
  have hserved := hstart.serveAll w.vars w.scheduler.settings.maxServed (hopen.truthful rfl)
  obtain ⟨hscheduler, hobjects, hrecorded⟩ := hserved.flushAll w.vars
  have hsucceed := htells.succeed rfl
  rw [drain_eq] at hsucceed ⊢
  generalize Drain.serveAll (applier w.vars) w.scheduler.settings.maxServed
    ⟨w.scheduler, w.bench, {}⟩ = d at hserved hscheduler hobjects hrecorded hsucceed ⊢
  generalize d.flushAll (applier w.vars) = flushed
    at hscheduler hobjects hrecorded hsucceed ⊢
  obtain ⟨scheduler, state, report⟩ := flushed
  dsimp only at hscheduler hobjects hrecorded
  subst hscheduler
  have hinOrder : state.scene.objects.InOrder := by
    rw [hobjects]
    exact hserved.inOrder
  have hserves := hserved.serves
  exact {
    regular := (show Serves Request.Addressed { d.scheduler with bounds := {}, superseded := [] }
      from ⟨⟨hserves.sound.graph, hserves.sound.numbered⟩, hserves.unread, hserves.all⟩).regular
    bounds := rfl
    inOrder := hinOrder
    owner := by
      show state.scene.objects.containerOf? Entity.variableOwner ≠ some c
      rw [hobjects]
      exact hserved.owner
    recorded := fun b hb => by
      obtain ⟨hthere, hcases⟩ := hrecorded b hb
      refine ⟨hthere, hcases.imp_right fun hrest => hrest.resolve_right ?_⟩
      rintro ⟨f, hf, hname, hin⟩
      exact hsucceed f hf hname ((hinOrder.listed c _).2 hin) }

/-- Another operation leaves what it does to be told. -/
theorem run (h : Told c w) {op : Operation} (hop : op ≠ .act .drain)
    (hopen : Operation.Open w op) (htells : Operation.Tells c w op) : Told c (op.run w) := by
  have hregular : (op.run w).scheduler.Regular := Operation.keeps lasting_regular hop h.regular
  have howes : ∀ {objects : ObjectTable}, (∀ x, w.scene.objects.containerOf? x = some c →
      objects.containerOf? x = some c) → w.scheduler.Owes w.scene.objects c →
      (op.run w).scheduler.Owes objects c := fun hplace howes =>
    h.owes howes hplace (Operation.asking_eq hop ▸ htells.arrive) fun t hname hwaits =>
      (Operation.keeps (lasting_places hname) hop ⟨h.regular, hwaits⟩).2
  have hinOrder := inOrder_run h.inOrder op
  suffices hscene : (op.run w).scene.objects.containerOf? Entity.variableOwner ≠ some c ∧
      ∀ b, (op.run w).scene.containerBounds[c]? = some b → ((op.run w).scene.get? c).isSome ∧
        (b = (op.run w).scene.around c ∨
          (op.run w).scheduler.Owes (op.run w).scene.objects c) from
    ⟨hregular, ((op.settings_run w hop).2).trans h.bounds, hinOrder, hscene.1, hscene.2⟩
  have hstages := stages_run (w := w) hop
  have hsets : ∀ e, op.Sets e → _ := fun e =>
    places_of_sets (w := w) h.regular.heeds.sound.numbered
  have hplain := hopen.plain
  generalize (op.run w).scene = s' at hstages hsets hplain ⊢
  generalize hbefore : w.scene = s at hstages
  cases hstages with
  | same =>
    subst hbefore
    refine ⟨h.owner, fun b hb => ?_⟩
    obtain ⟨hthere, hcases⟩ := h.recorded b hb
    exact ⟨hthere, hcases.imp_right (howes fun _ hx => hx)⟩
  | @written _ e v bounds _ _ hset hwrite =>
    subst hbefore
    have hshape := shape_write hwrite
    have hplace := fun x => ObjectTable.containerOf?_congr hshape x
    refine ⟨by rw [hplace]; exact h.owner, fun b hb => ?_⟩
    rw [(bounds_write hwrite).2] at hb
    obtain ⟨hthere, hcases⟩ := h.recorded b hb
    refine ⟨(ObjectTable.isSome_get?_congr hshape c).trans hthere, ?_⟩
    rcases hcases with rfl | howed
    · by_cases hin : w.scene.objects.containerOf? e.object = some c ∧
        s'.boundsOf? e.object ≠ w.scene.boundsOf? e.object
      · refine .inr ⟨e, (hplace _).trans hin.1, (hsets e hset (hplain e hset hin.2)).resolve_left ?_⟩
        rintro rfl
        exact hin.2 rfl
      · refine .inl (around_congr (ObjectTable.childrenOf_congr hshape c) fun y hy => ?_).symm
        by_cases hy' : e.object = y
        · subst hy'
          exact not_not.1 fun hne => hin ⟨(h.inOrder.listed c _).1 hy, hne⟩
        · exact boundsOf?_congr (by rw [get?_write hwrite, if_neg hy'])
    · exact .inr (howes (fun x hx => (hplace x).trans hx) howed)
  | @inserted o =>
    subst hbefore
    have hnew := hopen.new o rfl
    have hold : ∀ x, w.scene.objects.containerOf? x = some c → o.id ≠ x := by
      rintro x hx rfl
      rw [ObjectTable.containerOf?, show w.scene.objects.get? o.id = none from hnew] at hx
      cases hx
    have hplace : ∀ x, (w.scene.insert o).objects.containerOf? x =
        if o.id = x then o.container else w.scene.objects.containerOf? x :=
      fun x => w.scene.objects.containerOf?_insert o x
    refine ⟨?_, fun b hb => ?_⟩
    · rw [hplace]
      split
      next hid => exact fun hin => htells.owner o rfl hin hid
      next => exact h.owner
    · obtain ⟨hthere, hcases⟩ := h.recorded b hb
      have hget : ∀ x, (w.scene.insert o).get? x = if o.id = x then some o else w.scene.get? x :=
        fun x => w.scene.objects.get?_insert o x
      refine ⟨?_, ?_⟩
      · rw [hget]
        split
        · rfl
        · exact hthere
      · by_cases hin : o.container = some c
        · -- The arrival of the new child waits.
          refine .inr ⟨⟨o.id, Names.children⟩, by rw [hplace, if_pos rfl, hin], ?_⟩
          obtain ⟨r, hr, hkind, hpayload⟩ :=
            (added_addObject h.regular.heeds.sound o).arrival
          exact ⟨r, hr, .inl ⟨hkind, _, _, hpayload⟩⟩
        · refine hcases.imp (fun heq => ?_) (howes fun x hx => by rw [hplace, if_neg (hold x hx), hx])
          rw [heq]
          refine (around_congr (ObjectTable.childrenOf_insert_of_ne hnew hin) fun y hy => ?_).symm
          refine boundsOf?_congr ?_
          rw [hget, if_neg (hold y ((h.inOrder.listed c y).1 hy))]
  | @removed id o _ _ hremove =>
    subst hbefore
    have hobjects := objects_remove hremove
    have hstay : w.scene.objects.containerOf? id ≠ some c := fun hin =>
      htells.stay id rfl ((h.inOrder.listed c id).2 hin)
    have hplace : ∀ x, s'.objects.containerOf? x =
        if id = x then none else w.scene.objects.containerOf? x :=
      ObjectTable.containerOf?_remove hobjects
    have hrecords : s'.containerBounds = w.scene.containerBounds.erase id :=
      (congrArg (·.2.containerBounds) hremove).symm
    have hget : ∀ x, s'.get? x = if id = x then none else w.scene.get? x := fun x =>
      (ObjectTable.get?_remove hobjects x).2
    refine ⟨?_, fun b hb => ?_⟩
    · rw [hplace]
      split
      · exact (Option.some_ne_none c).symm
      · exact h.owner
    · rw [hrecords, Table.getElem?_erase] at hb
      split at hb
      · cases hb
      next hc =>
        obtain ⟨hthere, hcases⟩ := h.recorded b hb
        refine ⟨by rw [hget, if_neg hc]; exact hthere, ?_⟩
        have hother : ∀ x, w.scene.objects.containerOf? x = some c → id ≠ x := by
          rintro x hx rfl
          exact hstay hx
        refine hcases.imp (fun heq => ?_) (howes fun x hx => by rw [hplace, if_neg (hother x hx), hx])
        rw [heq]
        refine (around_congr (ObjectTable.childrenOf_remove_of_ne hobjects hstay) fun y hy => ?_).symm
        exact boundsOf?_congr (by rw [hget, if_neg (hother y ((h.inOrder.listed c y).1 hy))])
  | absent =>
    subst hbefore
    refine ⟨h.owner, fun b hb => ?_⟩
    have hb : (w.scene.containerBounds.erase _)[c]? = some b := hb
    rw [Table.getElem?_erase] at hb
    split at hb
    · cases hb
    · obtain ⟨hthere, hcases⟩ := h.recorded b hb
      exact ⟨hthere, hcases.imp_right (howes fun _ hx => hx)⟩

end Told

/-- Each of some operations satisfies `P` where it is carried out. -/
def Throughout (P : Workbench σ → Operation → Prop) (w : Workbench σ) : List Operation → Prop
  | [] => True
  | op :: ops => P w op ∧ Throughout P (op.run w) ops

theorem Told.perform (h : Told c w) {ops : List Operation}
    (hopen : w.Throughout Operation.Open ops) (htells : w.Throughout (Operation.Tells c) ops) :
    Told c (w.perform ops) := by
  induction ops generalizing w with
  | nil => exact h
  | cons op ops ih =>
    refine ih ?_ hopen.2 htells.2
    by_cases hop : op = .act .drain
    · subst hop
      exact h.drain hopen.1 htells.1
    · exact h.run hop hopen.1 htells.1

/-- Take a workbench over a scene that has recorded nothing wrong for a container, and carry out any
operations: objects that are added are new, every move that is served names the container that its
object leaves, and bounds change only under the names of numbers. Let no child of the container be
removed, no arrival of a child be displaced, and no request about a number of a child fail. Whenever
nothing waits, bounds that are recorded for the container are the box around its children. -/
theorem bounds_settle (functions : Registry σ) (scene : Scene) (settings : Settings)
    (clock : Clock) (host : σ) (hscene : scene.objects.InOrder) (c : ObjectId)
    (howner : scene.objects.containerOf? Entity.variableOwner ≠ some c)
    (hrecorded : ∀ b, scene.containerBounds[c]? = some b →
      (scene.get? c).isSome ∧ b = scene.around c) (ops : List Operation) :
    let start := new functions scene settings clock host
    let w := start.perform ops
    start.Throughout Operation.Open ops → start.Throughout (Operation.Tells c) ops →
    w.scheduler.isIdle → ∀ b, w.scene.containerBounds[c]? = some b →
      (w.scene.get? c).isSome ∧ b = w.scene.around c := by
  intro start w hopen htells hidle b hb
  have hstart : Told c start := {
    regular := ⟨heeds_of_isIdle (Sound.new _) rfl, by simp [start, new]⟩
    bounds := rfl
    inOrder := hscene
    owner := howner
    recorded := fun b hb => (hrecorded b hb).imp_right .inl }
  obtain ⟨hthere, hcases⟩ := (hstart.perform hopen htells).recorded b hb
  refine ⟨hthere, hcases.resolve_right ?_⟩
  rintro ⟨t, -, r, hr, -⟩
  exact all_of_isIdle hidle (fun _ => False) t r hr

/-- A child is resized and another one is added. The bounds are those of both, until one of them is
removed: nothing tells the container of that. -/
theorem bounds_settle_until_removal :
    let p : Object := { id := "p", name := "p" }
    let x : Object := { id := "x", name := "x", container := some "p" }
    let y : Object := { id := "y", name := "y", container := some "p",
                        properties := [("x", .leaf (.ofNat 7))] }
    let scene : Scene := Scene.insert (Scene.insert {} p) x
    let start := new .builtin scene {} .still ()
    let w := start.perform [.act (.setValue "x" "width" (.ofNat 5) .normal), .addObject y,
      .act .drain]
    let removed := w.perform [.removeObject "y", .act .drain]
    w.scheduler.isIdle ∧ w.scene.objects.childrenOf "p" = ["x", "y"] ∧
      (w.scene.containerBounds["p"]?).isSome ∧
      (∀ b, w.scene.containerBounds["p"]? = some b → b = w.scene.around "p") ∧
      removed.scheduler.isIdle ∧ removed.scene.objects.childrenOf "p" = ["x"] ∧
      removed.scene.containerBounds["p"]? = w.scene.containerBounds["p"]? ∧
      removed.scene.containerBounds["p"]? ≠ some (removed.scene.around "p") := by
  intro p x y scene start w removed
  have hscene : scene.objects.InOrder := (ObjectTable.InOrder.empty.insert p).insert x
  let resized := (Operation.act (.setValue "x" "width" (.ofNat 5) .normal)).run start
  let added := (Operation.addObject y).run resized
  have hpassages : ∀ q ∈ added.passages,
      q.request.kind = .property ∧ q.request.target.property ∈ Names.geometry ∨
      q.request.kind = .hierarchy ∧ q.request.payload = .hierarchy none (some "p") ∧
        q.before.objects.containerOf? q.request.target.object = some "p" := by
    decide +kernel
  have hnone : ∀ {s : Scheduler} {z : ObjectId},
      s.queue.pendingFor? ⟨z, Names.children⟩ = none →
      ¬ s.WaitsAs ⟨z, Names.children⟩ Request.Places := by
    rintro s z hz ⟨r, hr, -⟩
    cases hz.symm.trans hr
  have hresize : Operation.Open start (.act (.setValue "x" "width" (.ofNat 5) .normal)) ∧
      Operation.Tells "p" start (.act (.setValue "x" "width" (.ofNat 5) .normal)) := by
    have hwaits : ∀ z ∈ start.scene.objects.childrenOf "p",
        start.scheduler.queue.pendingFor? ⟨z, Names.children⟩ = none := by decide +kernel
    refine ⟨⟨nofun, ?_, nofun⟩, nofun, fun z hz h => absurd h (hnone (hwaits z hz)), nofun, nofun⟩
    rintro e rfl -
    show "width" ∈ Names.geometry
    decide
  have hadd : Operation.Open resized (.addObject y) ∧
      Operation.Tells "p" resized (.addObject y) := by
    have hnew : resized.scene.get? "y" = none :=
      Option.isNone_iff_eq_none.1 (by decide +kernel)
    have hwaits : ∀ z ∈ resized.scene.objects.childrenOf "p",
        resized.scheduler.queue.pendingFor? ⟨z, Names.children⟩ = none := by decide +kernel
    refine ⟨⟨?_, nofun, nofun⟩, nofun, fun z hz h => absurd h (hnone (hwaits z hz)), ?_, nofun⟩
    · rintro o ⟨⟩
      exact hnew
    · rintro o ⟨⟩ _
      decide
  have hdrain : Operation.Open added (.act .drain) ∧
      Operation.Tells "p" added (.act .drain) := by
    have hread : Operation.asking added (.act .drain) = added.scheduler :=
      readInbox_eq (by decide +kernel)
    have hclean : added.drain.1.failed = [] := by decide +kernel
    refine ⟨⟨nofun, nofun, fun _ q hq => ?_⟩, nofun, fun z _ h => by rw [hread]; exact h,
      nofun, fun _ f hf => by rw [hclean] at hf; cases hf⟩
    rcases hpassages q hq with ⟨hproperty, hname⟩ | ⟨hmove, hnamed, hplace⟩
    · exact ⟨fun hkind => by simp [hproperty] at hkind, fun _ _ => hname⟩
    · refine ⟨fun _ hpayload hin hout => ?_, fun hkind => by simp [hmove] at hkind⟩
      rw [hnamed] at hpayload
      cases hpayload
      exact absurd (hplace.symm.trans hin) hout
  have hidle : w.scheduler.isIdle := by decide +kernel
  have hnothing : scene.containerBounds["p"]? = none := by decide +kernel
  have hsettled := bounds_settle .builtin scene {} .still () hscene "p" (by decide +kernel)
    (fun b hb => by cases hnothing.symm.trans hb)
    [.act (.setValue "x" "width" (.ofNat 5) .normal), .addObject y, .act .drain]
    ⟨hresize.1, hadd.1, hdrain.1, trivial⟩ ⟨hresize.2, hadd.2, hdrain.2, trivial⟩ hidle
  refine ⟨hidle, by decide +kernel, by decide +kernel, fun b hb => ?_, by decide +kernel,
    by decide +kernel, by decide +kernel, by decide +kernel⟩
  -- Written out, the workbenches are the same as they stand.
  dsimp only [w, start] at hb ⊢
  exact (hsettled b hb).2

end Workbench

end Parametric
