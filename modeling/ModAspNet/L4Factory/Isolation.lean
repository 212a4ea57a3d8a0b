import ModAspNet.L4Factory.Entries

/-!
# The applications of a factory stay apart

Mounts are made by one thread, requests come for the keys it returned, and
hosts are finalized at any time.

* `isolationEach`: what each call does to the lists, by its kind.
* `Served`: a run in which the factory is called as the module calls it.
* `applications_isolated`: in every such run no call touches an entry that is
  not of its key, and each entry is null or a host made for the paths of its
  key.
-/
namespace ModAspNet.L4.HostFactory

open ModAspNet.L1.Managed
open ModAspNet.Core

/-! ## What each call does -/

/-- Beyond what all operations do: a finalizer clears only the host it is of,
and a mount writes to the entry it adds, whose paths are there when it reads
them. -/
def callGood (c : Call) (s₀ : Factory) (_ : Nat) (o : Op) (s _ : Factory) : Prop :=
  match c, o with
  | .hostFinalized _ h, .hostObjSet k _ => ∀ v, item s.hostObj k = .ok v → v = some h ∨ v = none
  | .createHost _ _ _, .hostObjSet k _ => k = s₀.entries
  | .createHost _ _ _, .hostURIGet k => ∃ uri, item s.hostURI k = .ok uri
  | .createHost _ _ _, .hostDirGet k => ∃ dir, item s.hostDir k = .ok dir
  | _, _ => True

/-- A key that `CreateHost` returns is connected. -/
def callPost (c : Call) (_ : Factory) (_ : Nat) (r : Except Exn Int) (s : Factory) : Prop :=
  match c, r with
  | .createHost _ _ _, .ok k => k ≠ -1 → connected s k = true
  | _, _ => True

/-- Between its calls the thread that makes the mounts leaves lists of one length. -/
def Balanced (m t : Nat) (s : Factory) : Prop := t = m → SameLengths s

section
variable {m t : Nat} {k : Int} {s s' s₀ : Factory}

theorem exec_sameLengths {o : Op} {x : Choice} {r : Except Exn o.Ans} (ho : o.keepsLists = true) (h : SameLengths s)
    (he : exec t o x s = some (r, s')) : SameLengths s' := by
  obtain ⟨us, ds, hl, hlen⟩ := h
  exact ⟨us, ds, exec_lists ho hl he, hlen⟩

theorem Others.balanced (h : Others m t s s') (hb : Balanced m t s) : Balanced m t s' := by
  intro ht
  obtain ⟨us, ds, hl, hlen⟩ := hb ht
  exact ⟨us, ds, h.lists ht _ _ _ _ hl, hlen⟩

/-- A program that only keeps the lists keeps them of one length. -/
theorem triple_balanced {G : Nat → Op → Factory → Factory → Prop} {α : Type} {p : FProg α} {P : Factory → Prop}
    {Q : Except Exn α → Factory → Prop} (hp : p.Performs (Op.keepsLists · = true))
    (h : ((isolation m).also G).Triple t P p Q) :
    ((isolation m).also G).Triple t (fun s => P s ∧ Balanced m t s) p fun r s => Q r s ∧ Balanced m t s :=
  h.frame (F := Balanced m t) (fun _ _ _ _ hb hr => Others.balanced hr hb)
    (fun _ ho _ _ _ _ hb he ht => exec_sameLengths ho (hb ht) he) hp

theorem keepsLists_ofConnect {o : Op} (h : o.ofConnect k = true) : o.keepsLists = true := by
  cases o <;> simp_all [Op.ofConnect, Op.keepsLists]

theorem keepsLists_ofRequest {o : Op} (h : o.ofRequest k = true) : o.keepsLists = true := by
  cases o <;> simp_all [Op.ofRequest, Op.ofConnect, Op.keepsLists]

theorem keepsLists_ofFinalizer {o : Op} (h : o.ofFinalizer k = true) : o.keepsLists = true := by
  cases o <;> simp_all [Op.ofFinalizer, Op.keepsLists]

/-! ## `HandleHostRequest` -/

/-- A request is in the monitor where it may connect. -/
def requestOwns (t : Nat) (k : Int) : RequestPoint → Factory → Prop
  | .start, s => connected s k = true
  | .came _, s => connected s k = true
  | .fell _, s => connected s k = true
  | .held _, s => s.owner = some t ∧ connected s k = true
  | .same _, s => s.owner = some t ∧ connected s k = true
  | .connecting, s => s.owner = some t ∧ connected s k = true
  | _, _ => True

theorem requestOwns_others {p : RequestPoint} (h : requestOwns t k p s) (ho : Others m t s s') : requestOwns t k p s' := by
  cases p with
  | start => exact any_grows ho.toGrows h
  | came host => exact any_grows ho.toGrows h
  | fell obj => exact any_grows ho.toGrows h
  | held obj => exact ⟨ho.owner h.1, any_grows ho.toGrows h.2⟩
  | same obj => exact ⟨ho.owner h.1, any_grows ho.toGrows h.2⟩
  | connecting => exact ⟨ho.owner h.1, any_grows ho.toGrows h.2⟩
  | _ => trivial

theorem requestOwns_afterRelease {obj : Option HostId} (ho : s.owner = some t) (hc : connected s k = true) :
    requestOwns t k (.afterRelease obj) s := by
  cases obj with
  | some h => trivial
  | none => exact ⟨ho, hc⟩

theorem callGood_request {rr : Nat} {o : Op} : callGood (.handleHostRequest k rr) s₀ t o s s' := by
  cases o <;> trivial

/-- What a request does beside `ConnectHost`. -/
def requestOutline (m t : Nat) (k : Int) (rr : Nat) (s₀ : Factory) :
    ((isolation m).also (callGood (.handleHostRequest k rr) s₀)).Outline t (requestFlow k rr) where
  knows := requestOwns t k
  stable p _ _ _ _ hp hr := requestOwns_others hp hr
  step {p o next} hedge s x r s' hi hp _ he := by
    have hstill : ∀ {o : Op} {r : Except Exn o.Ans}, exec t o x s = some (r, s') → o.isStill = true →
        MakesRight m t s o → ((isolation m).also (callGood (.handleHostRequest k rr) s₀)).StepOK t o s s' ∧ Grows s s' :=
      fun he ho hg => ⟨(still_ok hi ho hg he).also callGood_request, (exec_still ho he).grows⟩
    cases hedge with
    | entry =>
      obtain ⟨hok, hg⟩ := hstill he rfl trivial
      refine ⟨hok, ?_⟩
      rcases r with e | _ | h
      · trivial
      · exact any_grows hg hp
      · exact any_grows hg hp
    | first h =>
      obtain ⟨hok, hg⟩ := hstill he rfl trivial
      refine ⟨hok, ?_⟩
      rcases r with e | n
      · simp only [RequestPoint.afterFirst]
        split
        · exact any_grows hg hp
        · trivial
      · trivial
    | enter obj =>
      obtain ⟨hok, hg⟩ := hstill he rfl trivial
      refine ⟨hok, ?_⟩
      rcases exec_monitorEnter he with ⟨n, rfl, -, rfl⟩ | ⟨e, rfl, -⟩
      · exact ⟨rfl, any_grows hg hp⟩
      · trivial
    | tryobj obj =>
      obtain ⟨hok, -⟩ := hstill he rfl trivial
      refine ⟨hok, ?_⟩
      obtain ⟨-, rfl⟩ := exec_hostObjGet he
      rcases r with e | v
      · trivial
      · simp only [RequestPoint.afterTry]
        split
        · exact hp
        · exact requestOwns_afterRelease hp.1 hp.2
    | release obj =>
      rcases exec_hostObjSet he with ⟨e, rfl, rfl, -⟩ | ⟨v₀, rfl, hv₀, rfl⟩
      · exact ⟨Spec.StepOK.also ⟨hi, fun t' _ => .refl m t' _, trivial⟩ callGood_request,
          requestOwns_afterRelease hp.1 hp.2⟩
      · obtain ⟨hi', ho⟩ := store_keeps (m := m) (t := t) (c := s.caller t) hi hv₀ (v := none) fun h hv => by cases hv
        exact ⟨Spec.StepOK.also ⟨hi', ho, trivial⟩ callGood_request,
          requestOwns_afterRelease hp.1 ((connected_store k).trans hp.2)⟩
    | restarted => exact ⟨(hstill he rfl trivial).1, by rcases r with e | _ | h <;> trivial⟩
    | fail => exact ⟨(hstill he rfl trivial).1, by cases r <;> trivial⟩
    | leave h => exact ⟨(hstill he rfl trivial).1, by cases r <;> trivial⟩
    | «catch» => exact ⟨(hstill he rfl trivial).1, trivial⟩
    | second h => exact ⟨(hstill he rfl trivial).1, trivial⟩
  silent h s _ _ := by cases h <;> trivial

theorem handleHostRequest_isolated (rr : Nat) :
    ((isolation m).also (callGood (.handleHostRequest k rr) s₀)).Triple t
      (fun s => connected s k = true ∧ Balanced m t s) (handleHostRequest k rr) fun _ => Balanced m t := by
  have hB : LogBlind ((isolation m).also (callGood (.handleHostRequest k rr) s₀)) :=
    have hB := logBlind_isolation (m := m)
    ⟨hB.inv, hB.rely, fun t o s l ho => ⟨hB.good t o s l ho, callGood_request⟩⟩
  have hlets : Lets k (callGood (.handleHostRequest k rr) s₀) :=
    ⟨fun _ _ _ _ _ _ _ => callGood_request, fun _ _ _ _ _ => callGood_request⟩
  have hrequest := handleHostRequest_outline (requestOutline m t k rr s₀) hB <| by
    refine (connectHost_own (m := m) (t := t) hlets).conseq (fun s hi hp => ⟨?_, .inl hp, ?_⟩) fun r s _ _ => ?_
    · exact hi.entry k (hi.served k hp.2)
    · intro hc
      rw [hp.2] at hc
      cases hc
    · rcases r with e | _ | _ <;> trivial
  refine (triple_balanced ?_ hrequest).weaken fun _ _ _ h => h.2
  exact (handleHostRequest_performs k rr).imp fun _ => keepsLists_ofRequest

/-! ## `HostFinalized` -/

/-- The host the finalizer found is in the entry, or null is. -/
def FoundBy (k : Int) (h : HostId) (s : Factory) : Prop :=
  filled s k = true ∧ (item s.hostObj k = .ok (some h) ∨ item s.hostObj k = .ok none)

def finalizerOwns (t : Nat) (k : Int) (h : HostId) : FinalizePoint → Factory → Prop
  | .held, s => s.owner = some t
  | .read v, s => s.owner = some t ∧ ∀ h', v = some h' → FoundBy k h' s
  | .found, s => s.owner = some t ∧ FoundBy k h s
  | _, _ => True

theorem FoundBy.others {h : HostId} (hf : FoundBy k h s) (ho : Others m t s s') (hown : s.owner = some t) :
    FoundBy k h s' := by
  refine ⟨any_grows ho.toGrows hf.1, ?_⟩
  rcases ho.owned hown k hf.1 with hk | hk
  · rw [hk]
    exact hf.2
  · exact .inr hk

theorem finalizerOwns_others {h : HostId} {p : FinalizePoint} (hp : finalizerOwns t k h p s) (ho : Others m t s s') :
    finalizerOwns t k h p s' := by
  cases p with
  | held => exact ho.owner hp
  | read v => exact ⟨ho.owner hp.1, fun h' hv => (hp.2 h' hv).others ho hp.1⟩
  | found => exact ⟨ho.owner hp.1, hp.2.others ho hp.1⟩
  | _ => trivial

def finalizerOutline (m t : Nat) (k : Int) (h : HostId) (s₀ : Factory) :
    ((isolation m).also (callGood (.hostFinalized k h) s₀)).Outline t (finalizeFlow k h) where
  knows := finalizerOwns t k h
  stable p _ _ _ _ hp hr := finalizerOwns_others hp hr
  step {p o next} hedge s x r s' hi hp _ he := by
    have hstill : ∀ {o : Op} {r : Except Exn o.Ans}, exec t o x s = some (r, s') → o.isStill = true →
        MakesRight m t s o → callGood (.hostFinalized k h) s₀ t o s s' →
        ((isolation m).also (callGood (.hostFinalized k h) s₀)).StepOK t o s s' :=
      fun he ho hg hg' => (still_ok hi ho hg he).also hg'
    cases hedge with
    | enter =>
      refine ⟨hstill he rfl trivial trivial, ?_⟩
      rcases exec_monitorEnter he with ⟨n, rfl, -, rfl⟩ | ⟨e, rfl, -⟩
      · rfl
      · trivial
    | read =>
      refine ⟨hstill he rfl trivial trivial, ?_⟩
      obtain ⟨rfl, rfl⟩ := exec_hostObjGet he
      cases hv : item s'.hostObj k with
      | error e => trivial
      | ok v =>
        refine ⟨hp, ?_⟩
        rintro h' rfl
        exact ⟨(hi.held k h' hv).2, .inl hv⟩
    | equals v =>
      refine ⟨hstill he rfl trivial trivial, ?_⟩
      obtain ⟨rfl, rfl | ⟨e, rfl⟩⟩ := exec_equals he
      · by_cases hv : v = some h
        · rw [decide_eq_true hv]
          exact ⟨hp.1, hp.2 h hv⟩
        · rw [decide_eq_false hv]
          trivial
      · trivial
    | clear =>
      refine ⟨?_, trivial⟩
      have hgood : callGood (.hostFinalized k h) s₀ t (.hostObjSet k none) s s' := by
        intro v hv
        rcases hp.2.2 with hk | hk <;> rw [hk] at hv <;> cases hv
        · exact .inl rfl
        · exact .inr rfl
      rcases exec_hostObjSet he with ⟨e, -, rfl, -⟩ | ⟨v₀, -, hv₀, rfl⟩
      · exact Spec.StepOK.also ⟨hi, fun t' _ => .refl m t' _, trivial⟩ hgood
      · obtain ⟨hi', ho⟩ := store_keeps (m := m) (t := t) (c := s.caller t) hi hv₀ (v := none) fun h hv => by cases hv
        exact Spec.StepOK.also ⟨hi', ho, trivial⟩ hgood
    | leave => exact ⟨hstill he rfl trivial trivial, trivial⟩
  silent h := h.elim

theorem hostFinalized_isolated (h : HostId) :
    ((isolation m).also (callGood (.hostFinalized k h) s₀)).Triple t (Balanced m t)
      (hostFinalized k h >>= fun _ => pure (0 : Int)) fun _ => Balanced m t := by
  have hb : ((isolation m).also (callGood (.hostFinalized k h) s₀)).Stable t (Balanced m t) :=
    fun _ _ _ _ hb hr => Others.balanced hr hb
  have hfin := triple_balanced (m := m) (t := t) ((hostFinalized_performs k h).imp fun _ => keepsLists_ofFinalizer)
    (hostFinalized_outline (finalizerOutline m t k h s₀))
  refine .seq ((hfin.weaken fun _ _ _ hq => hq.2).strengthen fun s _ hs => ⟨trivial, hs⟩)
    (fun _ => .pure hb fun _ _ hs => hs) fun _ _ _ hs => hs

end

/-! ## `CreateHost` -/

section
variable {m t : Nat} {us ds : List WString} {v p : WString} {svr : Nat} {s s' s₀ : Factory}

/-- The mount connects the entry it has added, which nobody filled. -/
def mountOwns (m t : Nat) (us ds : List WString) (v p : WString) : MountPoint → Factory → Prop
  | .start, s => t = m → mountKnows us ds us.length v p .start s
  | .counted k, s => t = m → mountKnows us ds us.length v p (.counted k) s
  | .connecting k, s => t = m ∧ mountKnows us ds us.length v p (.connecting k) s ∧ MayFill m t k s
  | .connected k, s => t = m ∧ mountKnows us ds us.length v p (.connected k) s ∧ connected s k = true
  | .raised, s => t = m → mountKnows us ds us.length v p .raised s
  | q, s => t = m ∧ mountKnows us ds us.length v p q s

theorem mountKnows_others {q : MountPoint} (ht : t = m) (ho : Others m t s s')
    (h : mountKnows us ds us.length v p q s) : mountKnows us ds us.length v p q s' := by
  cases q with
  | start => exact ho.lists ht _ _ _ _ h
  | raised => exact ho.lists ht _ _ _ _ h
  | _ => exact ⟨h.1, ho.lists ht _ _ _ _ h.2⟩

theorem mountOwns_others {q : MountPoint} (h : mountOwns m t us ds v p q s) (ho : Others m t s s') :
    mountOwns m t us ds v p q s' := by
  cases q with
  | start => exact fun ht => mountKnows_others ht ho (h ht)
  | counted k => exact fun ht => mountKnows_others ht ho (h ht)
  | connecting k => exact ⟨h.1, mountKnows_others h.1 ho h.2.1, ho.mayFill h.2.2⟩
  | connected k => exact ⟨h.1, mountKnows_others h.1 ho h.2.1, any_grows ho.toGrows h.2.2⟩
  | raised => exact fun ht => mountKnows_others ht ho (h ht)
  | _ => exact ⟨h.1, mountKnows_others h.1 ho h.2⟩

/-- No entry, so nothing filled or connected. -/
theorem unfilled_of_lists {objs svrs : Nat} (hi : IsolationInv s) (hl : Lists us ds objs svrs s) :
    filled s objs = false ∧ connected s objs = false := by
  have hf : filled s objs = false := by
    by_contra hne
    rw [Bool.not_eq_false] at hne
    have := hl.entry_iff.mp (hi.entry _ hne)
    omega
  refine ⟨hf, ?_⟩
  by_contra hne
  rw [Bool.not_eq_false] at hne
  rw [hi.served _ hne] at hf
  cases hf

def mountOwnOutline (m t : Nat) (us ds : List WString) (v p : WString) (svr : Nat) (s₀ : Factory)
    (hds : ds.length = us.length) :
    ((isolation m).also (callGood (.createHost v p svr) s₀)).Outline t (mountFlow v p svr) where
  knows := mountOwns m t us ds v p
  stable q _ _ _ _ hp hr := mountOwns_others hp hr
  step {q o next} hedge s x r s' hi hq ha he := by
    have hadd : ∀ {q o next} {r : Except Exn o.Ans}, MountPoint.Edge v p svr q o next →
        exec t o x s = some (r, s') → t = m → mountKnows us ds us.length v p q s →
        MakesRight m t s o → callGood (.createHost v p svr) s₀ t o s s' →
        ((isolation m).also (callGood (.createHost v p svr) s₀)).StepOK t o s s' ∧ s'.events = s.events ∧
        (∃ a, r = .ok a) ∧ mountKnows us ds us.length v p (next r) s' := by
      intro q o next r hedge he ht hk hg hg'
      obtain ⟨⟨hi', ho⟩, hevents, -⟩ := mount_keeps (m := m) rfl hds hi hk hedge he
      obtain ⟨hr, hk'⟩ := mount_step hk hedge he
      exact ⟨Spec.StepOK.also ⟨hi', fun t' ht' => ho t' (ht ▸ ht'), hg⟩ hg', hevents, hr, hk'⟩
    cases hedge with
    | count =>
      refine ⟨(still_ok (o := .hostObjCount) hi rfl trivial he).also trivial, ?_⟩
      by_cases ht : t = m
      · obtain ⟨-, -, ⟨k, rfl⟩, hk⟩ := hadd .count he ht (hq ht) trivial trivial
        exact fun _ => hk
      · cases r with
        | ok k => exact fun ht' => absurd ht' ht
        | error e => exact fun ht' => absurd ht' ht
    | svr k =>
      have ht := ha rfl
      obtain ⟨hok, -, ⟨a, rfl⟩, hk⟩ := hadd (.svr k) he ht (hq ht) trivial trivial
      exact ⟨hok, ht, hk⟩
    | uri k =>
      obtain ⟨hok, -, ⟨a, rfl⟩, hk⟩ := hadd (.uri k) he hq.1 hq.2 trivial trivial
      exact ⟨hok, hq.1, hk⟩
    | dir k =>
      obtain ⟨hok, -, ⟨a, rfl⟩, hk⟩ := hadd (.dir k) he hq.1 hq.2 trivial trivial
      exact ⟨hok, hq.1, hk⟩
    | obj k =>
      obtain ⟨hok, hevents, ⟨a, rfl⟩, hk⟩ := hadd (.obj k) he hq.1 hq.2 trivial trivial
      obtain ⟨ht, rfl, hl⟩ := hq
      obtain ⟨hf, hc⟩ := unfilled_of_lists hi hl
      refine ⟨hok, ht, hk, .inr ⟨ht, ?_⟩, fun _ => ?_⟩
      · rw [connected, hevents]; exact hc
      · rw [filled, hevents]; exact hf
  silent h s _ hq := by
    cases h with
    | unconnected_raised n => exact fun _ => hq.2.2

theorem lets_mount {n : Int} (hn : n = s₀.entries) : Lets n (callGood (.createHost v p svr) s₀) where
  connect t o s s' hi hentry ho := by
    obtain ⟨us, ds, objs, svrs, hl, hobj, hds, hus⟩ := hi.lists
    have hlt := hl.entry_iff.mp hentry
    cases o with
    | hostObjSet k w => exact (of_decide_eq_true ho).trans hn
    | hostURIGet k =>
      obtain rfl := of_decide_eq_true ho
      rw [callGood, hl.uri]
      exact item_of_lt hlt.1 (by omega)
    | hostDirGet k =>
      obtain rfl := of_decide_eq_true ho
      rw [callGood, hl.dir]
      exact item_of_lt hlt.1 (by omega)
    | _ => trivial
  report t o s s' ho := by cases o <;> trivial

section
variable (hds : ds.length = us.length) (hn : t = m → s₀.entries = us.length)
include hds hn

/-- `ConnectHost` as `CreateHost` calls it. -/
theorem connectHost_mount (n : Int) : ((isolation m).also (callGood (.createHost v p svr) s₀)).Triple t
    (mountOwns m t us ds v p (.connecting n)) (connectHost n) fun r => mountOwns m t us ds v p (.afterConnect n r) := by
  refine .of_fact (φ := t = m ∧ n = us.length) (fun s _ hq => ⟨hq.1, hq.2.1.1⟩) fun ⟨ht, hlen⟩ => ?_
  have hlets : Lets n (callGood (.createHost v p svr) s₀) := lets_mount (hlen.trans (hn ht).symm)
  -- the lists stay as long as they are
  have hframe := Spec.Triple.frame (F := Lists (us ++ [v]) (ds ++ [replaceSlashes p]) (us.length + 1) (us.length + 1))
    (fun _ _ _ _ hl hr => Others.lists hr ht _ _ _ _ hl)
    (fun o ho _ _ _ _ hl he => exec_lists (keepsLists_ofConnect ho) hl he) (connectHost_performs n)
    (connectHost_own (m := m) (t := t) hlets)
  refine hframe.conseq (fun s _ hq => ⟨⟨?_, hq.2.2⟩, hq.2.1.2⟩) fun r s _ hq => ?_
  · exact hq.2.1.2.entry_iff.mpr (by omega)
  · rcases r with e | _ | _
    · exact fun _ => hq.2
    · exact ⟨ht, ⟨hlen, hq.2⟩⟩
    · exact ⟨ht, ⟨hlen, hq.2⟩, hq.1⟩

/-- The text of a failed mount. -/
theorem logMapping_mount (n : Int) (what : String) (loglevel : Int) (svrPtr : ServerPtr) :
    ((isolation m).also (callGood (.createHost v p svr) s₀)).Triple t (mountOwns m t us ds v p (.unconnected n))
      (logMapping what n loglevel svrPtr) fun _ => mountOwns m t us ds v p (.unconnected n) := by
  refine .of_performs (fun _ _ _ _ hq hr => mountOwns_others hq hr) ?_
    ((logMapping_text what n loglevel svrPtr).and (logMapping_performs n what loglevel svrPtr))
  rintro o ⟨htext, ho⟩ s x r s' hi hq _ he
  obtain ⟨l, rfl⟩ := exec_text htext he
  have hB := logBlind_isolation (m := m)
  have hlets : Lets n (callGood (.createHost v p svr) s₀) := lets_mount (hq.2.1.trans (hn hq.1).symm)
  have hentry : Entry s n := hq.2.2.entry_iff.mpr (by have := hq.2.1; omega)
  exact ⟨Spec.StepOK.also ⟨hB.inv s l hi, fun t' _ => hB.rely t' s l, hB.good t o s l htext⟩
    (hlets.connect t o s _ hi hentry ho), mountOwns_others hq (others_log l)⟩

theorem createHost_isolated : ((isolation m).also (callGood (.createHost v p svr) s₀)).Triple t
    (mountOwns m t us ds v p .start) (createHost v p svr)
    fun r s => Balanced m t s ∧ callPost (.createHost v p svr) s₀ t r s := by
  have hsame : ∀ {s}, Lists (us ++ [v]) (ds ++ [replaceSlashes p]) (us.length + 1) (us.length + 1) s → SameLengths s :=
    fun hl => ⟨us ++ [v], ds ++ [replaceSlashes p], by simpa using hl, by simp [hds]⟩
  refine (createHost_outline_log (mountOwnOutline m t us ds v p svr s₀ hds) (fun n => logMapping_mount hds hn n _ _ _)
    (connectHost_mount hds hn)).weaken fun r s _ hq => ?_
  cases r with
  | error e => exact ⟨fun ht => hsame (hq ht), trivial⟩
  | ok k =>
    rcases hq with hq | ⟨rfl, n, hq⟩
    · exact ⟨fun _ => hsame hq.2.1.2, fun _ => hq.2.2⟩
    · exact ⟨fun _ => hsame hq.2.2, fun hne => absurd rfl hne⟩

end

end

/-! ## The calls together -/

theorem still_enter {t t' : Nat} {c : Call} {s : Factory} : Still t' s (enter t c s) := by
  cases c with
  | hostFinalized k h => exact still_note (by simp [Event.serves, Event.fills]) rfl rfl rfl rfl rfl fun _ _ h => h
  | _ => exact still_note (l := []) (by simp) rfl rfl rfl rfl (by simp [enter]) fun _ _ h => h

theorem others_enter {m t t' : Nat} {c : Call} {s : Factory} : Others m t s (enter t' c s) := by
  have hstill : Still t s (enter t' c s) := still_enter
  refine hstill.others fun ho => ?_
  cases c <;> exact ho

def isolationEach (m : Nat) : (isolation m).Each factoryTasks where
  idle := Balanced m
  stable _ _ _ _ _ hb hr := Others.balanced hr hb
  good := callGood
  post := callPost
  starts t c s hi hb hc := by
    have hstill : Still t s (enter t c s) := still_enter
    have hi' : IsolationInv (enter t c s) := hstill.inv hi
    have hb' : Balanced m t (enter t c s) := others_enter.balanced hb
    refine ⟨hi', fun t' _ => others_enter, ?_⟩
    cases c with
    | handleHostRequest k rr =>
      exact (handleHostRequest_isolated rr _ hi' ⟨(hstill.connected k).trans hc, hb'⟩).conseq
        fun _ _ _ h => ⟨h, trivial⟩
    | hostFinalized k h =>
      exact (hostFinalized_isolated h _ hi' hb').conseq fun _ _ _ h => ⟨h, trivial⟩
    | createHost v p svr =>
      by_cases ht : t = m
      · obtain ⟨us, ds, hl, hlen⟩ := hb ht
        exact createHost_isolated hlen (fun _ => hl.entries) _ hi' fun _ => hstill.lists hl
      · have hnone : ([] : List WString).length = ([] : List WString).length := rfl
        exact createHost_isolated hnone (fun h => absurd h ht) _ hi' fun h => absurd h ht
    | destroy => exact hc.elim

/-! ## Runs as the module makes them -/

/-- The operations of a call. -/
def Call.may : Call → Op → Prop
  | .handleHostRequest k _, o => o.ofRequest k = true
  | .hostFinalized k _, o => o.ofFinalizer k = true
  | _, _ => True

theorem body_performs (call : Call) : (factoryTasks.body call).Performs call.may := by
  cases call with
  | handleHostRequest k rr => exact handleHostRequest_performs k rr
  | hostFinalized k h => exact .bind (fun _ => .pure _) (hostFinalized_performs k h)
  | createHost v p svr => exact Prog.performs_any
  | destroy => exact Prog.performs_any

/-- The key that a call of `CreateHost` returns where it ends; -1 is none. -/
def returned (c : FConfig) (κ : Calling Call Factory) : FAction → Option Int
  | .finish t =>
    match κ t, c.pool t with
    | some (.createHost _ _ _, _), some (.ret k) => if k = -1 then none else some k
    | _, _ => none
  | _ => none

/-- Thread `m` makes the mounts, requests are for the keys returned, and nobody
calls `Destroy`. -/
def Serves (m : Nat) (keys : List Int) : FAction → Prop
  | .start t (.createHost _ _ _) => t = m
  | .start _ (.handleHostRequest k _) => k ∈ keys
  | .start _ .destroy => False
  | _ => True

instance (m : Nat) (keys : List Int) : (a : FAction) → Decidable (Serves m keys a)
  | .start t (.createHost _ _ _) => inferInstanceAs (Decidable (t = m))
  | .start _ (.handleHostRequest k _) => inferInstanceAs (Decidable (k ∈ keys))
  | .start _ .destroy => isFalse id
  | .start _ (.hostFinalized _ _) => isTrue trivial
  | .step _ _ => isTrue trivial
  | .finish _ => isTrue trivial

/-- The factory is called so along the run, which comes with the calls threads
are in and the keys `CreateHost` has returned. -/
def Served (m : Nat) (c : FConfig) (κ : Calling Call Factory) (keys : List Int) : List FAction → Prop
  | [] => True
  | a :: as => Serves m keys a ∧
    match act exec factoryTasks c a with
    | none => True
    | some c' => Served m c' (κ.after c.shared a) (keys ++ (returned c κ a).toList) as

instance decidableServed (m : Nat) : (as : List FAction) → (c : FConfig) → (κ : Calling Call Factory) →
    (keys : List Int) → Decidable (Served m c κ keys as)
  | [], _, _, _ => isTrue trivial
  | a :: as, c, κ, keys =>
    match h : act exec factoryTasks c a with
    | none => decidable_of_iff (Serves m keys a) (by simp [Served, h])
    | some c' =>
      have := decidableServed m as c' (κ.after c.shared a) (keys ++ (returned c κ a).toList)
      decidable_of_iff (Serves m keys a ∧ Served m c' (κ.after c.shared a) (keys ++ (returned c κ a).toList) as)
        (by simp [Served, h])

/-- What is known of a call while it runs. -/
def Begun (m t : Nat) (s : Factory) : Call → Prop
  | .handleHostRequest k _ => connected s k = true ∧ Balanced m t s
  | .hostFinalized _ _ => Balanced m t s
  | .createHost _ _ _ => t = m
  | .destroy => False

theorem Others.begun {m t : Nat} {s s' : Factory} (h : Others m t s s') {call : Call} (hb : Begun m t s call) :
    Begun m t s' call := by
  cases call with
  | handleHostRequest k rr => exact ⟨any_grows h.toGrows hb.1, h.balanced hb.2⟩
  | hostFinalized k host => exact Others.balanced h hb
  | createHost v p svr => exact hb
  | destroy => exact hb

/-- What holds at each point of a run. -/
structure ServedInv (m : Nat) (c : FConfig) (κ : Calling Call Factory) (keys : List Int) : Prop where
  each : (isolationEach m).Inv κ c
  performing : Performing Call.may κ c
  keys : ∀ k ∈ keys, connected c.shared k = true
  begun : ∀ t call s, κ t = some (call, s) → Begun m t c.shared call

section
variable {m : Nat} {c c' : FConfig} {κ : Calling Call Factory} {keys : List Int} {a : FAction}

/-- A call that is no mount adds to no list. -/
theorem Begun.keepsLists {t : Nat} {s : Factory} {call : Call} (hb : Begun m t s call) (hne : t ≠ m ∨ ∀ v p svr,
    call ≠ .createHost v p svr) {o : Op} (ho : call.may o) : o.keepsLists = true := by
  cases call with
  | handleHostRequest k rr => exact keepsLists_ofRequest ho
  | hostFinalized k h => exact keepsLists_ofFinalizer ho
  | createHost v p svr => exact hne.elim (absurd hb) fun h => absurd rfl (h v p svr)
  | destroy => exact hb.elim

theorem ServedInv.permits (h : ServedInv m c κ keys) (hs : Serves m keys a) : Permits (isolating m) c a := by
  cases a with
  | start t call =>
    cases call with
    | handleHostRequest k rr => exact h.keys k hs
    | hostFinalized k host => trivial
    | createHost v p svr => trivial
    | destroy => exact hs
  | step t x =>
    simp only [Permits]
    split
    · rename_i o rest hpool
      intro ho
      obtain ⟨call, s, hκ, hp⟩ := h.performing t _ hpool
      by_contra hne
      rw [(h.begun t call s hκ).keepsLists (.inl hne) hp.1] at ho
      cases ho
    · trivial
  | finish t => trivial

/-- Another thread sees that nothing is undone. -/
theorem ServedInv.others (h : ServedInv m c κ keys) (hs : Serves m keys a) (ha : act exec factoryTasks c a = some c')
    {t : Nat} (ht : t ≠ a.thread) : Others m t c.shared c'.shared :=
  (isolationEach m).calls.act_rely h.each.base (h.permits hs) ha ht

theorem ServedInv.grows (h : ServedInv m c κ keys) (hs : Serves m keys a) (ha : act exec factoryTasks c a = some c') :
    Grows c.shared c'.shared ∧ ∀ k p, item c.shared.hostSvr k = .ok p → item c'.shared.hostSvr k = .ok p :=
  have ho := h.others hs ha (Nat.succ_ne_self a.thread)
  ⟨ho.toGrows, ho.svr⟩

theorem ServedInv.next (h : ServedInv m c κ keys) (hs : Serves m keys a) (ha : act exec factoryTasks c a = some c') :
    ServedInv m c' (κ.after c.shared a) (keys ++ (returned c κ a).toList) := by
  have hgrows := (h.grows hs ha).1
  refine ⟨((isolationEach m).act_inv h.each (h.permits hs) ha).1, act_performing body_performs h.performing ha, ?_, ?_⟩
  · intro k hk
    rcases List.mem_append.mp hk with hk | hk
    · exact any_grows hgrows (h.keys k hk)
    · -- `CreateHost` has just returned `k`
      cases a with
      | finish t =>
        simp only [returned] at hk
        split at hk
        · rename_i v p svr s k' hκ hpool
          split at hk
          · cases hk
          · rename_i hne
            cases List.mem_singleton.mp hk
            exact any_grows hgrows (((isolationEach m).ended h.each (r := .ok k) hpool hκ).2 hne)
        · cases hk
      | _ => cases hk
  · intro t call s hκ
    by_cases ht : t = a.thread
    · subst ht
      cases act_acts ha with
      | @start t call' hnone =>
        cases (setAt_self _ _ _).symm.trans hκ
        have hb : Balanced m t c.shared := h.each.base.idle t hnone
        refine Others.begun others_enter ?_
        cases call with
        | handleHostRequest k rr => exact ⟨h.keys k hs, hb⟩
        | hostFinalized k host => exact hb
        | createHost v p svr => exact hs
        | destroy => exact hs
      | @step t x o rest r s₁ hpool hx =>
        obtain ⟨call', s', hκ', hp⟩ := h.performing t _ hpool
        cases hκ.symm.trans hκ'
        have hb := h.begun t call s hκ
        have hlists : (∀ v p svr, call ≠ .createHost v p svr) → Balanced m t c.shared → Balanced m t s₁ :=
          fun hne hbal ht => exec_sameLengths (hb.keepsLists (.inr hne) hp.1) (hbal ht) hx
        cases call with
        | handleHostRequest k rr => exact ⟨any_grows hgrows hb.1, hlists nofun hb.2⟩
        | hostFinalized k host => exact hlists nofun hb
        | createHost v p svr => exact hb
        | destroy => exact hb
      | @finish t r hpool => cases (setAt_self _ _ _).symm.trans hκ
    · rw [κ.after_of_ne _ ht] at hκ
      exact (h.others hs ha ht).begun (h.begun t call s hκ)

end

/-- Along the run. -/
theorem ServedInv.along {m : Nat} : ∀ {as bs : List FAction} {c c' : FConfig} {κ : Calling Call Factory}
    {keys : List Int}, ServedInv m c κ keys → Served m c κ keys (as ++ bs) →
    run exec factoryTasks c as = some c' →
    ∃ keys', ServedInv m c' (calling exec factoryTasks c κ as) keys' ∧
      Served m c' (calling exec factoryTasks c κ as) keys' bs
  | [], _, _, _, _, keys, h, hs, he => by cases he; exact ⟨keys, h, hs⟩
  | a :: as, bs, c, c', κ, keys, h, hs, he => by
    obtain ⟨hsa, hs⟩ := hs
    cases ha : act exec factoryTasks c a with
    | none => simp only [run, ha] at he; cases he
    | some c₁ =>
      simp only [run, calling, ha] at he hs ⊢
      exact (h.next hsa ha).along hs he

theorem served_of_append {m : Nat} : ∀ {as bs : List FAction} {c : FConfig} {κ : Calling Call Factory} {keys : List Int},
    Served m c κ keys (as ++ bs) → Served m c κ keys as
  | [], _, _, _, _, _ => trivial
  | a :: as, bs, c, κ, keys, h => by
    obtain ⟨ha, h⟩ := h
    refine ⟨ha, ?_⟩
    split
    · trivial
    · rename_i c' hc
      rw [hc] at h
      exact served_of_append h

theorem ServedInv.meets {m : Nat} : ∀ {as : List FAction} {c : FConfig} {κ : Calling Call Factory}
    {keys : List Int}, ServedInv m c κ keys → Served m c κ keys as → Meets exec factoryTasks (isolating m) c as
  | [], _, _, _, _, _ => trivial
  | a :: as, c, κ, keys, h, hs => by
    obtain ⟨hsa, hs⟩ := hs
    refine ⟨h.permits hsa, ?_⟩
    split
    · trivial
    · rename_i c' ha
      rw [ha] at hs
      exact (h.next hsa ha).meets hs

theorem ServedInv.grown {m : Nat} : ∀ {as : List FAction} {c c' : FConfig} {κ : Calling Call Factory}
    {keys : List Int}, ServedInv m c κ keys → Served m c κ keys as → run exec factoryTasks c as = some c' →
    Grows c.shared c'.shared ∧ ∀ k p, item c.shared.hostSvr k = .ok p → item c'.shared.hostSvr k = .ok p
  | [], _, _, _, _, _, _, he => by cases he; exact ⟨.refl _, fun _ _ h => h⟩
  | a :: as, c, c', κ, keys, h, hs, he => by
    obtain ⟨c₁, ha, he⟩ := act_of_run_cons he
    obtain ⟨hsa, hs⟩ := hs
    rw [ha] at hs
    obtain ⟨hg, hp⟩ := h.grows hsa ha
    obtain ⟨hg', hp'⟩ := (h.next hsa ha).grown hs he
    exact ⟨hg.trans hg', fun k p hk => hp' k p (hp k p hk)⟩

theorem servedInv_new (m : Nat) : ServedInv m (.quiet newFactory) (fun _ => none) [] where
  each := by
    refine (isolationEach m).inv_quiet ⟨⟨[], [], 0, 0, ⟨rfl, rfl, ⟨[], rfl, rfl⟩, ⟨[], rfl, rfl⟩⟩, ?_⟩, ?_, ?_, ?_⟩
      fun t _ => ⟨[], [], ⟨rfl, rfl, ⟨[], rfl, rfl⟩, ⟨[], rfl, rfl⟩⟩, rfl⟩
    · simp
    · simp [newFactory, item_eq_ok]
    · simp [newFactory, connected]
    · simp [newFactory, filled]
  performing t p hp := by cases hp
  keys k hk := by cases hk
  begun t call s hκ := by cases hκ

/-! ## The applications -/

/-- The calls threads are in at the end of a run of a new factory. -/
def History.calling (H : History) : Calling Call Factory :=
  Core.calling exec factoryTasks (.quiet newFactory) (fun _ => none) H.actions

/-- The key a call is on: `CreateHost` is on the one it adds. -/
def Call.key (s₀ : Factory) : Call → Option Int
  | .handleHostRequest k _ => some k
  | .hostFinalized k _ => some k
  | .createHost _ _ _ => some s₀.entries
  | .destroy => none

/-- `CreateApplicationHost` made `h` in the run, for key `k` and the paths that
`hostURI[k]` and `hostDir[k]` hold. -/
def MadeFor (as : List FAction) (s : Factory) (k : Int) (h : HostId) : Prop :=
  ∃ before t after c uri dir, as = before ++ .step t .ok :: after ∧
    run exec factoryTasks (.quiet newFactory) before = some c ∧
    nextOp c t = some (.createApplicationHost k uri dir) ∧ c.shared.hosts = h ∧
    item s.hostURI k = .ok uri ∧ item s.hostDir k = .ok dir

/-- At the end of `H`, from where the run goes on with `as`. -/
structure Isolated (H : History) (as : List FAction) : Prop where
  /-- between calls of `CreateHost` -/
  lengths : (∀ t v p svr s, H.calling t ≠ some (.createHost v p svr, s)) → SameLengths H.last.shared
  /-- the paths and the server of a key never change -/
  kept : ∀ c, run exec factoryTasks H.last as = some c →
    (∀ k uri, item H.last.shared.hostURI k = .ok uri → item c.shared.hostURI k = .ok uri) ∧
    (∀ k dir, item H.last.shared.hostDir k = .ok dir → item c.shared.hostDir k = .ok dir) ∧
    ∀ k p, item H.last.shared.hostSvr k = .ok p → item c.shared.hostSvr k = .ok p
  /-- an entry is changed only by a call on its key -/
  own : ∀ a as' c k v, as = a :: as' → act exec factoryTasks H.last a = some c →
    item H.last.shared.hostObj k = .ok v → item c.shared.hostObj k ≠ .ok v →
    ∃ call s, H.calling a.thread = some (call, s) ∧ call.key s = some k
  held : ∀ k h, item H.last.shared.hostObj k = .ok (some h) → MadeFor H.actions H.last.shared k h
  /-- a `ConnectHost` that a thread is about to run, wherever it is called, and
  that returns false -/
  failed : ∀ t k (E : FProg Bool → FProg Int) before after c, Context E → H.last.pool t = some (E (connectHost k)) →
    as = before ++ after → Follows exec factoryTasks t H.last (connectHost k) before c (.ret false) →
    item c.shared.hostObj k = .ok none
  /-- a finalizer changes an entry only from the host it is of -/
  finalized : ∀ a as' c k h s k' v, as = a :: as' → act exec factoryTasks H.last a = some c →
    H.calling a.thread = some (.hostFinalized k h, s) → item H.last.shared.hostObj k' = .ok v →
    item c.shared.hostObj k' ≠ .ok v → k' = k ∧ v = some h

section
variable {m : Nat} {c c' : FConfig} {κ : Calling Call Factory} {keys : List Int} {a : FAction}

theorem ServedInv.lengths (h : ServedInv m c κ keys) (hno : ∀ t v p svr s, κ t ≠ some (.createHost v p svr, s)) :
    SameLengths c.shared := by
  cases hκ : κ m with
  | none =>
    have hpool : c.pool m = none := by
      cases hp : c.pool m with
      | none => rfl
      | some p =>
        obtain ⟨call, s, hκ', -⟩ := h.performing m p hp
        rw [hκ] at hκ'
        cases hκ'
    exact h.each.base.idle m hpool rfl
  | some cs =>
    obtain ⟨call, s⟩ := cs
    have hb := h.begun m call s hκ
    cases call with
    | handleHostRequest k rr => exact hb.2 rfl
    | hostFinalized k host => exact hb rfl
    | createHost v p svr => exact absurd hκ (hno m v p svr s)
    | destroy => exact hb.elim

/-- Where an entry changes, another object or null was stored there. -/
theorem entry_changed {t : Nat} {o : Op} {x : Choice} {s s' : Factory} {r : Except Exn o.Ans} {k : Int}
    {v : Option HostId} (he : exec t o x s = some (r, s')) (hi : IsolationInv s') (hv : item s.hostObj k = .ok v)
    (hne : item s'.hostObj k ≠ .ok v) : ∃ w, o = .hostObjSet k w ∧ w ≠ v := by
  cases exec_did he with
  | @stored k' w v₀ hv₀ =>
    rw [item_store hv₀] at hne
    split at hne
    · rename_i hk
      exact ⟨w, by rw [hk], fun hw => hne (by rw [hw])⟩
    · exact absurd hv hne
  | addedObj l hl => exact absurd (item_add hl hv) hne
  | listDropped l =>
    cases l with
    | hostObj =>
      obtain ⟨us, ds, objs, svrs, hl, -⟩ := hi.lists
      obtain ⟨l, hobj, -⟩ := hl.obj
      cases hobj
    | hostURI | hostDir | hostSvr => exact absurd hv hne
  | _ => exact absurd hv hne

/-- The call that changes an entry, and what it stores there. -/
theorem ServedInv.changed (h : ServedInv m c κ keys) (hs : Serves m keys a) (ha : act exec factoryTasks c a = some c')
    {k : Int} {v : Option HostId} (hv : item c.shared.hostObj k = .ok v) (hne : item c'.shared.hostObj k ≠ .ok v) :
    ∃ call s w, κ a.thread = some (call, s) ∧ call.key s = some k ∧ w ≠ v ∧
      call.may (.hostObjSet k w) ∧ callGood call s a.thread (.hostObjSet k w) c.shared c'.shared := by
  cases act_acts ha with
  | @start t call hnone =>
    refine absurd ?_ hne
    have hstill : Still t c.shared (enter t call c.shared) := still_enter
    exact (congrArg (item · k) hstill.obj).trans hv
  | @finish t r hpool => exact absurd hv hne
  | @step t x o rest r s hpool hx =>
    obtain ⟨call, s₀, hκ, hp⟩ := h.performing t _ hpool
    have hb := h.begun t call s₀ hκ
    obtain ⟨w, rfl, hw⟩ := entry_changed hx (h.next hs ha).each.base.inv hv hne
    have hgood := ((isolationEach m).act_inv h.each (h.permits hs) ha).2 call s₀ hκ
    simp only [Spec.Good, hpool] at hgood
    refine ⟨call, s₀, w, hκ, ?_, hw, hp.1, hgood.2⟩
    cases call with
    | handleHostRequest k' rr => exact congrArg some (of_decide_eq_true hp.1).symm
    | hostFinalized k' host => exact congrArg some (of_decide_eq_true hp.1).1.symm
    | createHost v p svr => exact congrArg some hgood.2.symm
    | destroy => exact hb.elim

/-- Hosts are recorded as made by `CreateApplicationHost` only. -/
theorem exec_made {t : Nat} {o : Op} {x : Choice} {s s' : Factory} {r : Except Exn o.Ans} {k : Int} {h : HostId}
    (he : exec t o x s = some (r, s')) (hm : .created k h ∈ s'.events) :
    .created k h ∈ s.events ∨ ∃ uri dir, o = .createApplicationHost k uri dir ∧ x = .ok ∧ s.hosts = h := by
  have hnote : ∀ {l : List Event}, .created k h ∈ s.events ++ l → .created k h ∉ l → .created k h ∈ s.events :=
    fun hm hn => (List.mem_append.mp hm).resolve_right hn
  cases exec_did he with
  | stored hv => exact .inl (hnote hm (by simp))
  | @created k' uri dir =>
    rcases List.mem_append.mp hm with hm | hm
    · exact .inl hm
    · cases List.mem_singleton.mp hm
      refine .inr ⟨uri, dir, rfl, ?_, rfl⟩
      rcases x with _ | _ | _ | _ <;> simp only [exec, Option.some.injEq, Prod.mk.injEq, reduceCtorEq] at he
      · rfl
      all_goals
        have := congrArg Factory.hosts he.2
        simp [Factory.newHost] at this
  | configured => exact .inl (hnote hm (by simp))
  | configureRaised e => exact .inl (hnote hm (by simp))
  | dispatched b raised =>
    exact .inl (hnote hm (by cases b <;> cases raised <;> simp [dispatchEvents, started]))
  | @exited section_end w _ _ => exact .inl (hnote hm (by cases section_end <;> simp [sectionEnd]))
  | _ => exact .inl hm

/-- Whatever host is recorded as made was made for the paths of its key. -/
theorem created_made {m : Nat} : ∀ (as : List FAction) (c : FConfig), Served m (.quiet newFactory) (fun _ => none) [] as →
    run exec factoryTasks (.quiet newFactory) as = some c → ∀ k h, .created k h ∈ c.shared.events →
    MadeFor as c.shared k h := by
  intro as
  induction as using List.reverseRecOn with
  | nil =>
    intro c _ hr k h hm
    cases hr
    cases hm
  | append_singleton as a ih =>
    intro c hs hr k h hm
    obtain ⟨c₁, hr₁, ha⟩ := act_of_run_snoc hr
    obtain ⟨keys, hinv, hsa⟩ := (servedInv_new m).along hs hr₁
    have hgrows := (hinv.grows hsa.1 ha).1
    have hs₁ : Served m (.quiet newFactory) (fun _ => none) [] as := served_of_append hs
    have hold : .created k h ∈ c₁.shared.events → MadeFor (as ++ [a]) c.shared k h := by
      intro hm
      obtain ⟨before, t, after, c₀, uri, dir, rfl, hr₀, hop, hh, hu, hd⟩ := ih c₁ hs₁ hr₁ k h hm
      exact ⟨before, t, after ++ [a], c₀, uri, dir, by simp, hr₀, hop, hh, hgrows.uri k uri hu, hgrows.dir k dir hd⟩
    cases act_acts ha with
    | @start t call hnone =>
      refine hold ?_
      cases call with
      | hostFinalized k' h' => simpa [factoryTasks, enter, Factory.note] using hm
      | _ => exact hm
    | @finish t r hpool => exact hold hm
    | @step t x o rest r s hpool hx =>
      rcases exec_made hx hm with hm | ⟨uri, dir, rfl, rfl, hh⟩
      · exact hold hm
      · have hgood := (hinv.each.base.safe t _ hpool c₁.shared hinv.each.base.inv (.refl m t _) _ _ _ hx
          (fun ho => by cases ho)).1.good
        exact ⟨as, t, [], c₁, uri, dir, rfl, hr₁, by rw [nextOp, hpool], hh, hgrows.uri k uri hgood.1,
          hgrows.dir k dir hgood.2.1⟩

/-! ### `ConnectHost` in its call -/

/-- `ConnectHost` reads the two paths and makes a host for what it read. -/
theorem connectHost_reads (k : Int) : ∃ (r₁ : Except Exn WString → FProg Bool)
    (r₂ : WString → Except Exn WString → FProg Bool) (r₃ : WString → WString → Except Exn (Option HostId) → FProg Bool),
    connectHost k = .call (.hostURIGet k) r₁ ∧ ∀ uri, r₁ (.ok uri) = .call (.hostDirGet k) (r₂ uri) ∧
      ∀ dir, r₂ uri (.ok dir) = .call (.createApplicationHost k uri dir) (r₃ uri dir) :=
  ⟨_, _, _, rfl, fun _ => ⟨rfl, fun _ => rfl⟩⟩

/-- The entry of a connected key is there, with its paths. -/
theorem IsolationInv.paths {s : Factory} (hi : IsolationInv s) {k : Int} (hentry : Entry s k) :
    (∃ uri, item s.hostURI k = .ok uri) ∧ ∃ dir, item s.hostDir k = .ok dir := by
  obtain ⟨us, ds, objs, svrs, hl, hobj, hds, hus⟩ := hi.lists
  have hlt := hl.entry_iff.mp hentry
  rw [hl.uri, hl.dir]
  exact ⟨item_of_lt hlt.1 (by omega), item_of_lt hlt.1 (by omega)⟩

/-- Where a thread is about to run `ConnectHost`, in whatever call, it may. -/
theorem ServedInv.mayConnect (h : ServedInv m c κ keys) {t : Nat} {k : Int} {E : FProg Bool → FProg Int}
    (hE : Context E) (hpool : c.pool t = some (E (connectHost k))) : connectsOwn m t k .start c.shared := by
  obtain ⟨r₁, r₂, r₃, hreads, hreads'⟩ := connectHost_reads k
  rw [hreads, hE] at hpool
  obtain ⟨call, s, hκ, hperf⟩ := h.performing t _ hpool
  obtain ⟨call', s', hκ', hsafe⟩ := h.each.each t _ hpool
  cases hκ.symm.trans hκ'
  have hi := h.each.base.inv
  have hread : ∀ {o : Op}, o.keepsLists = true → (isolating m).step t o .ok c.shared :=
    fun ho ho' => by rw [ho] at ho'; cases ho'
  -- the paths it is about to read are there
  obtain ⟨hok, hsafe⟩ := hsafe c.shared hi (.refl m t _) .ok (item c.shared.hostURI k) c.shared rfl (hread rfl)
  have hb := h.begun t call s hκ
  have huri : ∃ uri, item c.shared.hostURI k = .ok uri := by
    cases call with
    | handleHostRequest k' rr =>
      obtain rfl := of_decide_eq_true hperf.1
      exact (hi.paths (hi.entry k (hi.served k hb.1))).1
    | hostFinalized k' host => cases hperf.1
    | createHost v p svr => exact hok.good.2
    | destroy => exact hb.elim
  obtain ⟨uri, huri⟩ := huri
  rw [huri] at hsafe
  beta_reduce at hsafe
  rw [(hreads' uri).1, hE] at hsafe
  obtain ⟨hok, hsafe⟩ := hsafe c.shared hi (.refl m t _) .ok (item c.shared.hostDir k) c.shared rfl (hread rfl)
  have hdir : ∃ dir, item c.shared.hostDir k = .ok dir := by
    cases call with
    | handleHostRequest k' rr =>
      obtain rfl := of_decide_eq_true hperf.1
      exact (hi.paths (hi.entry k (hi.served k hb.1))).2
    | hostFinalized k' host => cases hperf.1
    | createHost v p svr => exact hok.good.2
    | destroy => exact hb.elim
  obtain ⟨dir, hdir⟩ := hdir
  rw [hdir] at hsafe
  beta_reduce at hsafe
  rw [(hreads' uri).2 dir, hE] at hsafe
  -- and what it makes with them is made by who may
  obtain ⟨hok, -⟩ := hsafe c.shared hi (.refl m t _) .null (.ok none) c.shared rfl nofun
  exact hok.good.1.2.2

theorem ServedInv.failed (h : ServedInv m c κ keys) {t : Nat} {k : Int} {E : FProg Bool → FProg Int} (hE : Context E)
    (hpool : c.pool t = some (E (connectHost k))) {as : List FAction} (hs : Served m c κ keys as)
    (hf : Follows exec factoryTasks t c (connectHost k) as c' (.ret false)) : item c'.shared.hostObj k = .ok none := by
  have hlets : Lets k fun _ _ _ _ => True := ⟨fun _ _ _ _ _ _ _ => trivial, fun _ _ _ _ _ => trivial⟩
  have hconnect := connectHost_own (m := m) (t := t) hlets c.shared h.each.base.inv (h.mayConnect hE hpool)
  obtain ⟨hi, hsafe⟩ := hf.safe (isolationEach m).calls hE h.each.base (h.meets hs) hpool hconnect.of_also
  exact (hsafe c'.shared hi (.refl m t _)).2

/-- For every run of a new factory in which it is called as the module does,
with any failures, restarts and finalizers: the applications stay apart. -/
theorem applications_isolated (m : Nat) (H : History) (as : List FAction)
    (hs : Served m (.quiet newFactory) (fun _ => none) [] (H.actions ++ as)) : Isolated H as := by
  obtain ⟨keys, hinv, hnext⟩ := (servedInv_new m).along hs H.ran
  refine ⟨hinv.lengths, fun c hr => ?_, ?_, fun k h hk => ?_, ?_, ?_⟩
  · obtain ⟨hg, hp⟩ := hinv.grown hnext hr
    exact ⟨hg.uri, hg.dir, hp⟩
  · rintro a as' c k v rfl ha hv hne
    obtain ⟨call, s, -, hκ, hkey, -⟩ := hinv.changed hnext.1 ha hv hne
    exact ⟨call, s, hκ, hkey⟩
  · exact created_made H.actions H.last (served_of_append hs) H.ran k h (hinv.each.base.inv.held k h hk).1
  · rintro t k E before after c hE hpool rfl hf
    exact hinv.failed hE hpool (served_of_append hnext) hf
  · rintro a as' c k h s k' v rfl ha hκ hv hne
    obtain ⟨call, s', w, hκ', -, hw, hmay, hgood⟩ := hinv.changed hnext.1 ha hv hne
    cases hκ.symm.trans hκ'
    obtain ⟨hk, rfl⟩ := of_decide_eq_true hmay
    refine ⟨hk, ?_⟩
    rcases hgood v hv with rfl | rfl
    · rfl
    · exact absurd rfl hw

end

/-- Thread 0 mounts key 0, whose host is finalized in thread 1. Thread 2's
request is about to connect the key. -/
def failedRestartRun : History where
  actions := .start 0 (.createHost (wlit "/app") (wlit "C:/app") 0) :: List.replicate 12 (.step 0 .ok) ++
    [.finish 0, .start 1 (.hostFinalized 0 0)] ++ List.replicate 5 (.step 1 .ok) ++
    [.finish 1, .start 2 (.handleHostRequest 0 7)] ++ List.replicate 8 (.step 2 .ok)
  last := (run exec factoryTasks (.quiet newFactory)
    (.start 0 (.createHost (wlit "/app") (wlit "C:/app") 0) :: List.replicate 12 (.step 0 .ok) ++
      [.finish 0, .start 1 (.hostFinalized 0 0)] ++ List.replicate 5 (.step 1 .ok) ++
      [.finish 1, .start 2 (.handleHostRequest 0 7)] ++ List.replicate 8 (.step 2 .ok))).get (by decide +kernel)
  ran := by rw [Option.some_get]

/-- The host cannot be made, and thread 0 mounts the next key meanwhile. -/
theorem applications_isolated_restart : nextOp failedRestartRun.last 2 = some (.hostURIGet 0) ∧
    Isolated failedRestartRun ([.step 2 .ok, .start 0 (.createHost (wlit "/b") (wlit "C:/b") 0), .step 2 .ok, .step 0 .ok,
      .step 2 (.raise false (.other (wlit "no")))] ++ List.replicate 6 (.step 0 .ok) ++ List.replicate 4 (.step 2 .ok)) :=
  ⟨by decide +kernel, applications_isolated 0 failedRestartRun _ (by decide +kernel)⟩

end ModAspNet.L4.HostFactory
