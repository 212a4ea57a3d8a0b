import ModAspNet.L4Factory.Outline

/-!
# Which hosts a request can reach

`ConnectHost` stores the new host in `hostObj[HostKey]` and calls
`Host::Configure` on it after that, so a request, which reads the list without
the lock, may be dispatched to a host that does not know its directories, its
key or the factory yet. `CreateHost` does not take the lock either, so the read
at the end of a restart section may meet such a host as well.

* `exec_keeps`: one operation keeps what the events say about the hosts; an
  operation on a host needs what `Allowed` says.
* `invoked_configured`: in every run in which no request reads a host that is
  not configured yet, every host a request is dispatched to was configured with
  the paths of the request's key.
-/
namespace ModAspNet.L4.HostFactory

open ModAspNet.L1.Managed
open ModAspNet.Core

/-! ## The property -/

/-- `Configure` completed on `h` with the key `k` and the paths of that key. -/
def Configured (s : Factory) (k : Int) (h : HostId) : Prop :=
  ∃ uri dir, .configured k h uri dir ∈ s.events ∧ item s.hostURI k = .ok uri ∧ item s.hostDir k = .ok dir

/-- The operation thread `t` is to perform next. -/
def nextOp (c : FConfig) (t : Nat) : Option Op :=
  match c.pool t with
  | some (.call o _) => some o
  | _ => none

/-- Whoever is to invoke `HandleRequest` for key `k` has a host configured for `k`. -/
def InvokesConfigured (c : FConfig) : Prop :=
  ∀ t site k h rr, nextOp c t = some (.handleRequest site k h rr) → Configured c.shared k h

/-- The calls are those of requests, of mounts and of finalizers. -/
def serving : Assumption Op Call Choice Factory where
  call c _ := c ≠ .destroy
  step _ _ _ _ := True

def Event.isConfigureOf (h : HostId) : Event → Bool
  | .configured _ h' _ _ => decide (h' = h)
  | _ => false

/-- `Configure` has completed on `h`. -/
def IsConfigured (s : Factory) (h : HostId) : Prop := ∃ e ∈ s.events, e.isConfigureOf h = true

instance (s : Factory) (h : HostId) : Decidable (IsConfigured s h) :=
  inferInstanceAs (Decidable (∃ e ∈ s.events, e.isConfigureOf h = true))

/-- If `hostObj[k]` is a host, `Configure` has completed on it. -/
def HeldConfigured (s : Factory) (k : Int) : Prop := ∀ h ∈ s.slot k, IsConfigured s h

/-- The key whose entry an operation reads for a host to dispatch to. -/
def Op.takesFrom : Op → Option Int
  | .hostObjGet k .entry => some k
  | .hostObjGet k .restarted => some k
  | _ => none

/-- Where a request takes a host from the list, that host is configured. -/
def readsConfigured : Assumption Op Call Choice Factory where
  call c _ := c ≠ .destroy
  step _ o _ s := ∀ k ∈ o.takesFrom, HeldConfigured s k

instance (s : Factory) (k : Int) : Decidable (HeldConfigured s k) :=
  inferInstanceAs (Decidable (∀ h ∈ s.slot k, IsConfigured s h))

instance (c : Call) (s : Factory) : Decidable (readsConfigured.call c s) :=
  inferInstanceAs (Decidable (c ≠ .destroy))

instance (t : Nat) (o : Op) (x : Choice) (s : Factory) : Decidable (readsConfigured.step t o x s) :=
  inferInstanceAs (Decidable (∀ k ∈ o.takesFrom, HeldConfigured s k))

instance (c : Call) (s : Factory) : Decidable (serving.call c s) :=
  inferInstanceAs (Decidable (c ≠ .destroy))

instance (t : Nat) (o : Op) (x : Choice) (s : Factory) : Decidable (serving.step t o x s) := isTrue trivial

/-! ## What the events say about the hosts -/

structure HostsInv (s : Factory) : Prop where
  fresh : ∀ k h, .created k h ∈ s.events → h < s.hosts
  one_key : ∀ k k' h, .created k h ∈ s.events → .created k' h ∈ s.events → k = k'
  held : ∀ k h, item s.hostObj k = .ok (some h) → .created k h ∈ s.events
  configured : ∀ k h uri dir, .configured k h uri dir ∈ s.events →
    .created k h ∈ s.events ∧ item s.hostURI k = .ok uri ∧ item s.hostDir k = .ok dir

/-- Nothing that happened is undone, and no path of a key changes. -/
structure Grows (s s' : Factory) : Prop where
  events : ∀ e ∈ s.events, e ∈ s'.events
  uri : ∀ k u, item s.hostURI k = .ok u → item s'.hostURI k = .ok u
  dir : ∀ k d, item s.hostDir k = .ok d → item s'.hostDir k = .ok d

theorem Grows.refl (s : Factory) : Grows s s := ⟨fun _ h => h, fun _ _ h => h, fun _ _ h => h⟩

theorem Grows.trans {s s' s'' : Factory} (h : Grows s s') (h' : Grows s' s'') : Grows s s'' :=
  ⟨fun e he => h'.events e (h.events e he), fun k u hu => h'.uri k u (h.uri k u hu),
    fun k d hd => h'.dir k d (h.dir k d hd)⟩

/-- What an operation needs: a host is stored or configured under the key it
was made for, with the paths of that key, and gets a request when that is done. -/
def Allowed (s : Factory) : Op → Prop
  | .hostObjSet k (some h) => .created k h ∈ s.events
  | .configure k h uri dir => .created k h ∈ s.events ∧ item s.hostURI k = .ok uri ∧ item s.hostDir k = .ok dir
  | .handleRequest _ k h _ => Configured s k h
  | .listDrop _ => False
  | _ => True

/-- The specification: every operation is allowed and keeps `HostsInv`. -/
def hostsSpec (A : Assumption Op Call Choice Factory) : Spec exec A where
  inv := HostsInv
  rely := fun _ => Grows
  good := fun _ o s _ => Allowed s o
  refl := fun _ => Grows.refl
  trans := fun _ _ _ _ => Grows.trans

/-- An event that is about neither the making nor the configuring of a host. -/
def Event.isPlain : Event → Bool
  | .created _ _ => false
  | .configured _ _ _ _ => false
  | _ => true

/-- The lists stay, and what is recorded is plain. -/
theorem HostsInv.plain {s s' : Factory} {l : List Event} (hi : HostsInv s) (hevents : s'.events = s.events ++ l)
    (hplain : ∀ e ∈ l, e.isPlain = true) (hhosts : s'.hosts = s.hosts) (huri : s'.hostURI = s.hostURI)
    (hdir : s'.hostDir = s.hostDir)
    (hheld : ∀ k h, item s'.hostObj k = .ok (some h) → .created k h ∈ s.events) : HostsInv s' ∧ Grows s s' := by
  have hold : ∀ e, e.isPlain = false → e ∈ s'.events → e ∈ s.events := by
    intro e he hm
    rw [hevents, List.mem_append] at hm
    rcases hm with hm | hm
    · exact hm
    · rw [hplain e hm] at he; cases he
  have hnew : ∀ e ∈ s.events, e ∈ s'.events := fun e he => by
    rw [hevents]; exact List.mem_append_left _ he
  refine ⟨⟨?_, ?_, ?_, ?_⟩, ⟨hnew, ?_, ?_⟩⟩
  · exact fun k h hm => hhosts ▸ hi.fresh k h (hold _ rfl hm)
  · exact fun k k' h hm hm' => hi.one_key k k' h (hold _ rfl hm) (hold _ rfl hm')
  · exact fun k h hm => hnew _ (hheld k h hm)
  · intro k h uri dir hm
    obtain ⟨hc, hu, hd⟩ := hi.configured k h uri dir (hold _ rfl hm)
    exact ⟨hnew _ hc, huri ▸ hu, hdir ▸ hd⟩
  · exact fun k u hu => huri ▸ hu
  · exact fun k d hd => hdir ▸ hd

/-- A list grows, and nothing is recorded. -/
theorem HostsInv.added {s s' : Factory} (hi : HostsInv s) (hevents : s'.events = s.events) (hhosts : s'.hosts = s.hosts)
    (hheld : ∀ k h, item s'.hostObj k = .ok (some h) → item s.hostObj k = .ok (some h))
    (huri : ∀ k u, item s.hostURI k = .ok u → item s'.hostURI k = .ok u)
    (hdir : ∀ k d, item s.hostDir k = .ok d → item s'.hostDir k = .ok d) : HostsInv s' ∧ Grows s s' := by
  refine ⟨⟨?_, ?_, ?_, ?_⟩, ⟨fun e he => hevents ▸ he, huri, hdir⟩⟩
  · rw [hevents, hhosts]; exact hi.fresh
  · rw [hevents]; exact hi.one_key
  · intro k h hm; rw [hevents]; exact hi.held k h (hheld k h hm)
  · intro k h uri dir hm
    rw [hevents] at hm ⊢
    obtain ⟨hc, hu, hd⟩ := hi.configured k h uri dir hm
    exact ⟨hc, huri k uri hu, hdir k dir hd⟩

/-- A new host, of which nothing was said before. -/
theorem HostsInv.created {s : Factory} (hi : HostsInv s) (k : Int) (uri dir : WString) :
    HostsInv (s.newHost k uri dir) ∧ Grows s (s.newHost k uri dir) := by
  have hmem : ∀ e ∈ s.events, e ∈ s.events ++ [Event.created k s.hosts] := fun e => List.mem_append_left _
  have hcase : ∀ k' h, .created k' h ∈ s.events ++ [Event.created k s.hosts] →
      .created k' h ∈ s.events ∨ (k' = k ∧ h = s.hosts) := by
    intro k' h hm
    rcases List.mem_append.mp hm with hm | hm
    · exact .inl hm
    · cases List.mem_singleton.mp hm; exact .inr ⟨rfl, rfl⟩
  refine ⟨⟨fun k' h hm => ?_, fun k' k'' h hm hm' => ?_, fun k' h hm => hmem _ (hi.held k' h hm),
    fun k' h u d hm => ?_⟩, ⟨hmem, fun _ _ h => h, fun _ _ h => h⟩⟩
  · rcases hcase k' h hm with hm | ⟨-, rfl⟩
    · exact Nat.lt_succ_of_lt (hi.fresh k' h hm)
    · exact Nat.lt_succ_self _
  · rcases hcase k' h hm with h1 | ⟨rfl, rfl⟩ <;> rcases hcase k'' _ hm' with h2 | ⟨rfl, he⟩
    · exact hi.one_key k' k'' h h1 h2
    · exact absurd (hi.fresh k' h h1) (he ▸ Nat.lt_irrefl _)
    · exact absurd (hi.fresh k'' _ h2) (Nat.lt_irrefl _)
    · rfl
  · rcases List.mem_append.mp hm with hm | hm
    · obtain ⟨hc, hu, hd⟩ := hi.configured k' h u d hm
      exact ⟨hmem _ hc, hu, hd⟩
    · cases List.mem_singleton.mp hm

/-- A host configured with the paths of its key. -/
theorem HostsInv.configure {s : Factory} (hi : HostsInv s) {k : Int} {h : HostId} {uri dir : WString}
    (ha : Allowed s (.configure k h uri dir)) :
    HostsInv (s.note [.configured k h uri dir]) ∧ Grows s (s.note [.configured k h uri dir]) := by
  obtain ⟨hc, hu, hd⟩ := ha
  have hmem : ∀ e ∈ s.events, e ∈ s.events ++ [Event.configured k h uri dir] := fun e => List.mem_append_left _
  have hold : ∀ k' h', .created k' h' ∈ s.events ++ [Event.configured k h uri dir] → .created k' h' ∈ s.events := by
    intro k' h' hm
    rcases List.mem_append.mp hm with hm | hm
    · exact hm
    · cases List.mem_singleton.mp hm
  refine ⟨⟨fun k' h' hm => hi.fresh k' h' (hold _ _ hm), fun k' k'' h' hm hm' =>
    hi.one_key k' k'' h' (hold _ _ hm) (hold _ _ hm'), fun k' h' hm => hmem _ (hi.held k' h' hm),
    fun k' h' uri' dir' hm => ?_⟩, ⟨hmem, fun _ _ h => h, fun _ _ h => h⟩⟩
  rcases List.mem_append.mp hm with hm | hm
  · obtain ⟨hc', hu', hd'⟩ := hi.configured k' h' uri' dir' hm
    exact ⟨hmem _ hc', hu', hd'⟩
  · cases List.mem_singleton.mp hm
    exact ⟨hmem _ hc, hu, hd⟩

theorem isPlain_dispatchEvents {c : Caller} {site : DispatchSite} {k : Int} {h : HostId} {b : Bool}
    {raised : Option Exn} : ∀ e ∈ dispatchEvents c site k h b raised, e.isPlain = true := by
  cases b <;> cases raised <;> simp [dispatchEvents, started, Event.isPlain]

/-- One operation: what is allowed keeps what the events say about the hosts. -/
theorem exec_keeps {t : Nat} {o : Op} {x : Choice} {s s' : Factory} {r : Except Exn o.Ans} (hi : HostsInv s)
    (ha : Allowed s o) (h : exec t o x s = some (r, s')) : HostsInv s' ∧ Grows s s' := by
  cases exec_did h with
  | @stored k v v₀ hv₀ =>
    refine hi.plain rfl (by simp [Event.isPlain]) rfl rfl rfl fun k' h' hm => ?_
    rw [item_store hv₀] at hm
    split at hm
    · rename_i he; cases hm; rw [he]; exact ha
    · exact hi.held k' h' hm
  | created => exact hi.created _ _ _
  | configured => exact hi.configure ha
  | configureRaised e => exact hi.plain rfl (by simp [Event.isPlain]) rfl rfl rfl hi.held
  | dispatched b raised => exact hi.plain rfl isPlain_dispatchEvents rfl rfl rfl hi.held
  | @exited section_end m ho hm =>
    exact hi.plain rfl (by cases section_end <;> simp [sectionEnd, Event.isPlain]) rfl rfl rfl hi.held
  | addedURI l hl => exact hi.added rfl rfl (fun _ _ h => h) (fun k v hv => item_add hl hv) fun _ _ h => h
  | addedDir l hl => exact hi.added rfl rfl (fun _ _ h => h) (fun _ _ h => h) fun k v hv => item_add hl hv
  | addedObj l hl =>
    refine hi.added rfl rfl (fun k host hm => ?_) (fun _ _ h => h) fun _ _ h => h
    rcases item_of_add hl hm with hm | hm
    · exact hm
    · cases hm
  | listDropped l => exact absurd ha id
  | log | entered | addedSvr | encodingDropped =>
    exact hi.plain (l := []) (by simp) (by simp) rfl rfl rfl hi.held

/-! ## The functions -/

/-- What growth does not undo. -/
def Lasting (P : Factory → Prop) : Prop := ∀ s s', Grows s s' → P s → P s'

theorem Lasting.const (φ : Prop) : Lasting fun _ => φ := fun _ _ _ h => h

theorem Lasting.and {P P' : Factory → Prop} (h : Lasting P) (h' : Lasting P') : Lasting fun s => P s ∧ P' s :=
  fun s s' hg hp => ⟨h s s' hg hp.1, h' s s' hg hp.2⟩

theorem lasting_event (e : Event) : Lasting fun s => e ∈ s.events := fun _ _ hg => hg.events e

theorem lasting_uri (k : Int) (uri : WString) : Lasting fun s => item s.hostURI k = .ok uri :=
  fun _ _ hg => hg.uri k uri

theorem lasting_dir (k : Int) (dir : WString) : Lasting fun s => item s.hostDir k = .ok dir :=
  fun _ _ hg => hg.dir k dir

theorem lasting_configured (k : Int) (h : HostId) : Lasting fun s => Configured s k h := by
  rintro s s' hg ⟨uri, dir, hm, hu, hd⟩
  exact ⟨uri, dir, hg.events _ hm, hg.uri k uri hu, hg.dir k dir hd⟩

section
variable {A : Assumption Op Call Choice Factory} {t : Nat} {P : Factory → Prop}

theorem Lasting.stable (hP : Lasting P) : (hostsSpec A).Stable t P := fun s s' _ _ hp hg => hP s s' hg hp

/-- An allowed operation. -/
theorem allowed_step {o : Op} {x : Choice} {s s' : Factory} {r : Except Exn o.Ans} (hi : HostsInv s) (ha : Allowed s o)
    (he : exec t o x s = some (r, s')) : (hostsSpec A).StepOK t o s s' ∧ Grows s s' := by
  obtain ⟨hi', hg⟩ := exec_keeps hi ha he
  exact ⟨⟨hi', fun _ _ => hg, ha⟩, hg⟩

theorem logBlind_hosts : LogBlind (hostsSpec A) where
  inv _ _ hi := ⟨hi.fresh, hi.one_key, hi.held, hi.configured⟩
  rely _ _ _ := ⟨fun _ h => h, fun _ _ h => h, fun _ _ h => h⟩
  good _ o _ _ ho := by cases o <;> trivial

/-- What `ConnectHost` knows of the host it makes. -/
def madeKnows (k : Int) : ConnectPoint → Factory → Prop
  | .made v, s => ∀ h, v = some h → .created k h ∈ s.events
  | .stored h, s => .created k h ∈ s.events
  | .located h uri, s => .created k h ∈ s.events ∧ item s.hostURI k = .ok uri
  | .placed h uri dir, s => .created k h ∈ s.events ∧ item s.hostURI k = .ok uri ∧ item s.hostDir k = .ok dir
  | _, _ => True

theorem lasting_madeKnows (k : Int) : ∀ p, Lasting (madeKnows k p)
  | .made _ => fun _ _ hg hp h hv => hg.events _ (hp h hv)
  | .stored _ => lasting_event _
  | .located _ _ => (lasting_event _).and (lasting_uri _ _)
  | .placed _ _ _ => (lasting_event _).and ((lasting_uri _ _).and (lasting_dir _ _))
  | .start | .unmade | .raised | .connected | .unconnected | .escaped => .const True

def connectOutline (A : Assumption Op Call Choice Factory) (t : Nat) (k : Int) :
    (hostsSpec A).Outline t (connectFlow k) where
  knows := madeKnows k
  stable p := (lasting_madeKnows k p).stable
  step {p o next} hedge s x r s' hi hp _ he := by
    have ha : Allowed s o := by
      cases hedge with
      | store v => cases v with
        | none => trivial
        | some h => exact hp h rfl
      | configure h uri dir => exact hp
      | _ => trivial
    obtain ⟨hok, hg⟩ := allowed_step (A := A) hi ha he
    refine ⟨hok, ?_⟩
    cases hedge with
    | create uri dir =>
      rcases exec_createApplicationHost he with ⟨rfl, rfl⟩ | ⟨-, rfl | ⟨e, rfl⟩⟩
      · rintro h ⟨⟩; exact List.mem_append_right _ (List.mem_singleton.mpr rfl)
      · rintro h ⟨⟩
      · trivial
    | store v =>
      rcases r with e | _
      · trivial
      · cases v with
        | none => trivial
        | some h => exact hg.events _ (hp h rfl)
    | uri h =>
      cases x <;> simp only [exec, Option.some.injEq, Prod.mk.injEq, reduceCtorEq] at he
      obtain ⟨rfl, rfl⟩ := he
      cases hu : item s.hostURI k with
      | error e => trivial
      | ok uri => exact ⟨hp, hu⟩
    | dir h uri =>
      cases x <;> simp only [exec, Option.some.injEq, Prod.mk.injEq, reduceCtorEq] at he
      obtain ⟨rfl, rfl⟩ := he
      cases hd : item s.hostDir k with
      | error e => trivial
      | ok dir => exact ⟨hp.1, hp.2, hd⟩
    | configure h uri dir => cases r <;> trivial
    | clear => cases r <;> trivial
  silent h _ _ _ := by cases h <;> trivial

theorem connectHost_keeps (t : Nat) (k : Int) : (hostsSpec A).Triple t (fun _ => True) (connectHost k) fun _ _ => True :=
  (connectHost_outline (connectOutline A t k) logBlind_hosts).weaken fun _ _ _ _ => trivial

/-- A program of operations allowed in every state. -/
theorem triple_allowed {α : Type} {p : FProg α} (hp : p.Performs fun o => ∀ s, Allowed s o) :
    (hostsSpec A).Triple t (fun _ => True) p fun _ _ => True :=
  .of_performs (.const True) (fun _ ho s _ _ _ hi _ _ he => ⟨(allowed_step hi (ho s) he).1, trivial⟩) hp

theorem createHost_keeps (v p : WString) (svr : Nat) :
    (hostsSpec A).Triple t (fun _ => True) (createHost v p svr) fun _ _ => True := by
  have hop : ∀ o : Op, (∀ s, Allowed s o) → (hostsSpec A).Triple t (fun _ => True) (atom o) fun _ _ => True :=
    fun o ho => triple_allowed (Prog.Performs.perform ho)
  have herr : ∀ (e : Exn) (s : Factory), HostsInv s → True → True := fun _ _ _ _ => trivial
  refine .seq (hop .hostObjCount fun _ => trivial) (fun n => ?_) herr
  refine .seq (hop (.hostSvrAdd svr) fun _ => trivial) (fun _ => ?_) herr
  refine .seq (hop (.hostURIAdd v) fun _ => trivial) (fun _ => ?_) herr
  refine .seq (hop (.hostDirAdd (replaceSlashes p)) fun _ => trivial) (fun _ => ?_) herr
  refine .seq (hop .hostObjAdd fun _ => trivial) (fun _ => ?_) herr
  refine .seq (connectHost_keeps t n) (fun connected => ?_) herr
  cases connected with
  | true => exact .pure (.const True) fun _ _ _ => trivial
  | false =>
    refine .seq (logBlind_hosts.triple (.const True) (logMapping_text _ _ _ _)) (fun _ => ?_) herr
    exact .pure (.const True) fun _ _ _ => trivial

theorem hostFinalized_keeps (k : Int) (h : HostId) :
    (hostsSpec A).Triple t (fun _ => True) (hostFinalized k h) fun _ _ => True := by
  refine hostFinalized_outline ⟨fun _ _ => True, fun _ => .const True, ?_, fun h => h.elim⟩
  intro p o next hedge s x r s' hi _ _ he
  have ha : Allowed s o := by cases hedge <;> trivial
  exact ⟨(allowed_step hi ha he).1, trivial⟩

end

/-- What a request reads is the host of its key, configured. -/
theorem HostsInv.read {s : Factory} (hi : HostsInv s) {k : Int} {h : HostId}
    (hr : item s.hostObj k = .ok (some h)) (hc : HeldConfigured s k) : Configured s k h := by
  obtain ⟨e, hm, he⟩ := hc h (by rw [Factory.slot, hr]; rfl)
  cases e with
  | configured k' h' uri dir =>
    simp only [Event.isConfigureOf, decide_eq_true_eq] at he
    subst he
    obtain ⟨hmade, hu, hd⟩ := hi.configured k' h' uri dir hm
    cases hi.one_key k k' h' (hi.held k h' hr) hmade
    exact ⟨uri, dir, hm, hu, hd⟩
  | _ => cases he

/-- The object a request goes on with is null or a host configured for its key. -/
def configuredKnows (k : Int) : RequestPoint → Factory → Prop
  | .came h, s => Configured s k h
  | .fell obj, s => ∀ h, obj = some h → Configured s k h
  | .held obj, s => ∀ h, obj = some h → Configured s k h
  | .same obj, s => ∀ h, obj = some h → Configured s k h
  | .chosen h, s => Configured s k h
  | .onward h, s => Configured s k h
  | _, _ => True

theorem lasting_configuredKnows (k : Int) : ∀ p, Lasting (configuredKnows k p)
  | .came _ | .chosen _ | .onward _ => lasting_configured k _
  | .fell _ | .held _ | .same _ => fun s s' hg hp h ho => lasting_configured k h s s' hg (hp h ho)
  | .start | .connecting | .connected | .unconnected | .left | .broken | .done => .const True

theorem configuredKnows_afterRelease {k : Int} {obj : Option HostId} {s : Factory}
    (h : ∀ host, obj = some host → Configured s k host) : configuredKnows k (.afterRelease obj) s := by
  cases obj with
  | none => trivial
  | some host => exact h host rfl

def configuredOutline (t : Nat) (k : Int) (rr : Nat) : (hostsSpec readsConfigured).Outline t (requestFlow k rr) where
  knows := configuredKnows k
  stable p := (lasting_configuredKnows k p).stable
  step {p o next} hedge s x r s' hi hp hm he := by
    have ha : Allowed s o := by
      cases hedge with
      | first h => exact hp
      | second h => exact hp
      | _ => trivial
    obtain ⟨hok, hg⟩ := allowed_step (A := readsConfigured) hi ha he
    refine ⟨hok, ?_⟩
    have hp' := lasting_configuredKnows k p s s' hg hp
    cases hedge with
    | entry =>
      obtain ⟨rfl, rfl⟩ := exec_hostObjGet he
      rcases hr : item s'.hostObj k with e | _ | h
      · trivial
      · rintro h ⟨⟩
      · exact hi.read hr (hm k rfl)
    | first h =>
      rcases r with e | n
      · simp only [RequestPoint.afterFirst]
        split
        · rintro h' ⟨⟩; exact hp'
        · trivial
      · trivial
    | enter obj => cases r <;> trivial
    | tryobj obj =>
      rcases r with e | v
      · trivial
      · simp only [RequestPoint.afterTry]
        split
        · exact hp'
        · exact configuredKnows_afterRelease hp'
    | release obj => exact configuredKnows_afterRelease hp'
    | restarted =>
      obtain ⟨rfl, rfl⟩ := exec_hostObjGet he
      rcases hr : item s'.hostObj k with e | _ | h
      · trivial
      · trivial
      · exact hi.read hr (hm k rfl)
    | fail => cases r <;> trivial
    | leave h => cases r <;> trivial
    | «catch» => trivial
    | second h => trivial
  silent h _ _ _ := by cases h <;> trivial

theorem handleHostRequest_configured (t : Nat) (k : Int) (rr : Nat) :
    (hostsSpec readsConfigured).Triple t (fun _ => True) (handleHostRequest k rr) fun _ _ => True := by
  refine handleHostRequest_outline (configuredOutline t k rr) logBlind_hosts ?_
  refine (connectHost_keeps t k).weaken fun r _ _ _ => ?_
  rcases r with e | _ | _ <;> trivial

/-! ## Runs -/

theorem enter_keeps {t : Nat} {c : Call} {s : Factory} (hi : HostsInv s) :
    HostsInv (enter t c s) ∧ Grows s (enter t c s) := by
  cases c with
  | hostFinalized k h => exact hi.plain (l := [.finalized k h]) rfl (by simp [Event.isPlain]) rfl rfl rfl hi.held
  | _ => exact hi.plain (l := []) (by simp [enter]) (by simp) rfl rfl rfl hi.held

def configuredCalls : (hostsSpec readsConfigured).Calls factoryTasks where
  idle _ _ := True
  stable _ := .const True
  starts t c s hi _ hc := by
    obtain ⟨hi', hg⟩ := enter_keeps (t := t) (c := c) hi
    refine ⟨hi', fun _ _ => hg, ?_⟩
    cases c with
    | handleHostRequest k rr => exact handleHostRequest_configured t k rr _ hi' trivial
    | hostFinalized k h =>
      exact (Spec.Triple.seq (hostFinalized_keeps k h) (fun _ => .pure (.const True) fun _ _ _ => trivial)
        fun _ _ _ _ => trivial) _ hi' trivial
    | createHost v p svr => exact createHost_keeps v p svr _ hi' trivial
    | destroy => exact absurd rfl hc

/-- In a run in which every host a request reads is configured, so is every
host a request is dispatched to, for the key of the request. -/
theorem invoked_configured (H : History) (hm : Meets exec factoryTasks readsConfigured (.quiet newFactory) H.actions) :
    InvokesConfigured H.last := by
  have hinit : HostsInv newFactory := by
    constructor <;> simp [newFactory, item_eq_ok]
  have hrun := configuredCalls.run_inv (configuredCalls.inv_quiet hinit fun _ => trivial) hm H.ran
  intro t site k h rr ht
  simp only [nextOp] at ht
  split at ht
  · rename_i o rest hpool
    cases ht
    exact ((hrun.safe t _ hpool) _ hrun.inv (.refl _) (.status false 0) _ _ rfl (by rintro k ⟨⟩)).1.good
  · cases ht

/-! ## A request in the middle of a restart -/

/-- Thread 0 creates the host of key 0, which is finalized in thread 1. The
request of thread 2 restarts it and has stored the new host. -/
def storedActions : List FAction :=
  (.start 0 (.createHost (wlit "/app") (wlit "C:/app") 0) :: List.replicate 12 (.step 0 .ok) : List FAction) ++
  ([.finish 0, .start 1 (.hostFinalized 0 0)] : List FAction) ++ (List.replicate 5 (.step 1 .ok) : List FAction) ++
  ([.finish 1, .start 2 (.handleHostRequest 0 7)] : List FAction) ++ (List.replicate 12 (.step 2 .ok) : List FAction)

/-- Now thread 3 reads the list. -/
def earlyRun : History where
  actions := storedActions ++ [.start 3 (.handleHostRequest 0 8), .step 3 .ok]
  last := (run exec factoryTasks (.quiet newFactory)
    (storedActions ++ [.start 3 (.handleHostRequest 0 8), .step 3 .ok])).get (by decide +kernel)
  ran := by rw [Option.some_get]

theorem unconfigured_host_invoked :
    ¬ ∀ H : History, Meets exec factoryTasks serving (.quiet newFactory) H.actions → InvokesConfigured H.last := by
  intro h
  have hnext : nextOp earlyRun.last 3 = some (.handleRequest .first 0 1 8) := by decide +kernel
  obtain ⟨uri, dir, hm, -, -⟩ := h earlyRun (by decide +kernel) _ _ _ _ _ hnext
  have hnone : ∀ e ∈ earlyRun.last.shared.events, e.isConfigureOf 1 = false := by decide +kernel
  cases hnone _ hm

/-- Thread 3 reads the list when thread 2 has left the section. -/
def lateRun : History where
  actions := storedActions ++ List.replicate 5 (.step 2 .ok) ++ [.start 3 (.handleHostRequest 0 8), .step 3 .ok]
  last := (run exec factoryTasks (.quiet newFactory) (storedActions ++ List.replicate 5 (.step 2 .ok) ++
    [.start 3 (.handleHostRequest 0 8), .step 3 .ok])).get (by decide +kernel)
  ran := by rw [Option.some_get]

theorem invoked_configured_lateRun :
    nextOp lateRun.last 3 = some (.handleRequest .first 0 1 8) ∧ InvokesConfigured lateRun.last :=
  ⟨by decide +kernel, invoked_configured lateRun (by decide +kernel)⟩

end ModAspNet.L4.HostFactory
