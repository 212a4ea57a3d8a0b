import Mathlib.Data.List.Pairwise
import ModAspNet.Core.Tokens
import ModAspNet.L4Factory.AtMostOnce
import ModAspNet.L4Factory.Shutdown

/-!
# How long an entry holds a host

`HandleHostRequest` compares the object it reads under the monitor with the one
it read before, and takes equal objects to mean that the entry is as it was. A
host is a token (`Core.Tokens`): `CreateApplicationHost` hands it out, storing it
spends it.

* `body_frugal`: a host is stored only by the call that made it, once.
* `Shown`: what an entry holds is what was last stored in it.
* `reads_exact`: so in every run, when a call reads the same host twice, the reads
  are of one entry, and nobody has written it in between.
-/
namespace ModAspNet.L4.HostFactory

open ModAspNet.L1.Managed
open ModAspNet.Core

/-! ## What is stored where -/

/-- The host an event put into an entry. -/
def Event.placed : Event → Option HostId
  | .stored _ _ v => v
  | _ => none

def Event.writes (k : Int) : Event → Bool
  | .stored _ k' _ => decide (k' = k)
  | _ => false

def placedHosts (s : Factory) : List HostId := s.events.filterMap Event.placed

def writesOf (s : Factory) (k : Int) : List Event := s.events.filter (Event.writes k)

theorem placedHosts_append {s s' : Factory} {l : List Event} (h : s'.events = s.events ++ l) :
    placedHosts s' = placedHosts s ++ l.filterMap Event.placed := by
  rw [placedHosts, h, List.filterMap_append, ← placedHosts]

theorem writesOf_append {s s' : Factory} {l : List Event} (h : s'.events = s.events ++ l) (k : Int) :
    writesOf s' k = writesOf s k ++ l.filter (Event.writes k) := by
  rw [writesOf, h, List.filter_append, ← writesOf]

theorem Unwritten.placedHosts {s s' : Factory} (h : Unwritten s s') : placedHosts s' = placedHosts s := by
  obtain ⟨l, hl, hp⟩ := h
  have hnone : l.filterMap Event.placed = [] := by
    refine List.filterMap_eq_nil_iff.mpr fun e he => ?_
    cases e with
    | stored => cases hp _ he
    | _ => rfl
  rw [placedHosts_append hl, hnone, List.append_nil]

theorem Unwritten.writesOf {s s' : Factory} (h : Unwritten s s') (k : Int) : writesOf s' k = writesOf s k := by
  obtain ⟨l, hl, hp⟩ := h
  have hnone : l.filter (Event.writes k) = [] := by
    refine List.filter_eq_nil_iff.mpr fun e he => ?_
    cases e with
    | stored => cases hp _ he
    | _ => exact Bool.false_ne_true
  rw [writesOf_append hl, hnone, List.append_nil]

/-! ## Hosts as tokens -/

/-- The new host an operation answers with. -/
def Op.makesHost : (o : Op) → Except Exn o.Ans → Option HostId
  | .createApplicationHost _ _ _, .ok v => v
  | _, _ => none

def Op.storesHost : Op → Option HostId
  | .hostObjSet _ v => v
  | _ => none

theorem exec_hosts {t : Nat} {o : Op} {x : Choice} {s s' : Factory} {r : Except Exn o.Ans}
    (h : exec t o x s = some (r, s')) : s.hosts ≤ s'.hosts := by
  cases exec_did h with
  | created => exact Nat.le_succ _
  | _ => exact le_rfl

def hostTokens : Tokens exec HostId where
  made s := {h | h < s.hosts}
  spent := placedHosts
  gives := Op.makesHost
  takes := Op.storesHost
  made_mono hx _ ha := Nat.lt_of_lt_of_le ha (exec_hosts hx)
  gives_new {t o x s r s' a} hx ha := by
    cases o with
    | createApplicationHost k uri dir =>
      rcases exec_createApplicationHost hx with ⟨rfl, rfl⟩ | ⟨-, rfl | ⟨e, rfl⟩⟩
      · cases ha
        exact ⟨Nat.lt_irrefl _, Nat.lt_succ_self _⟩
      · cases ha
      · cases ha
    | _ => cases ha
  spends {t o x s r s'} hx := by
    rcases exec_writes hx with ⟨k, v, v₀, rfl, -, rfl⟩ | ⟨hu, -⟩
    · rw [placedHosts_append (l := [.stored (s.caller t) k v]) rfl]
      cases v with
      | none => exact .inl (List.append_nil _)
      | some h => exact .inr ⟨h, rfl, rfl⟩
    · exact .inl hu.placedHosts

/-! ## Every call is frugal -/

theorem frugal_atom {A : Set HostId} (o : Op) (h : o.storesHost = none) : hostTokens.Frugal (atom o) A :=
  .of_performs (.perform h)

theorem frugal_text {α : Type} {A : Set HostId} {p : FProg α} (hp : p.Performs (Op.isText · = true)) :
    hostTokens.Frugal p A := by
  refine .of_performs (hp.imp fun o ho => ?_)
  cases o with
  | hostObjSet => cases ho
  | _ => rfl

section
variable (k : Int)

/-- What is stored is null, or what `CreateApplicationHost` has just answered. -/
theorem connectHost_frugal : hostTokens.Frugal (connectHost k) ∅ := by
  refine .tryCatch ?_ fun e => ?_
  · refine .perform_bind nofun fun uri => .perform_bind nofun fun dir => .perform_bind nofun fun newHost => ?_
    refine .perform_bind (fun a ha => .inr ha) fun _ => ?_
    cases newHost with
    | some host =>
      refine .perform_bind nofun fun uri => .perform_bind nofun fun dir => ?_
      exact .bind (fun _ => .pure _) (frugal_atom (.configure k host uri dir) rfl)
    | none =>
      refine .perform_bind nofun fun svr => .bind (fun _ => .pure _) ?_
      exact frugal_atom (.logServerError _ _ _) rfl
  · refine .perform_bind nofun fun svr => .bind (fun _ => .bind (fun _ => .bind (fun _ => .pure _) ?_) ?_) ?_
    · exact frugal_atom (.hostObjSet k none) rfl
    · exact frugal_atom (.logServerError _ _ _) rfl
    · exact frugal_atom (.logServerError _ _ _) rfl

theorem clearStale_frugal : hostTokens.Frugal (Prog.tryCatch (hostObjSet k none) fun _ => pure ()) ∅ :=
  .tryCatch (frugal_atom (.hostObjSet k none) rfl) fun _ => .pure _

theorem createHost_frugal (v p : WString) (svr : Nat) : hostTokens.Frugal (createHost v p svr) ∅ := by
  refine .bind (fun newHostKey => .bind (fun _ => .bind (fun _ => .bind (fun _ => .bind (fun _ => ?_) ?_) ?_) ?_) ?_) ?_
  · refine .bind (fun connected => ?_) (connectHost_frugal newHostKey)
    cases connected with
    | true => exact .pure _
    | false => exact .bind (fun _ => .pure _) (frugal_text (logMapping_text _ _ _ _))
  · exact frugal_atom .hostObjAdd rfl
  · exact frugal_atom (.hostDirAdd _) rfl
  · exact frugal_atom (.hostURIAdd v) rfl
  · exact frugal_atom (.hostSvrAdd svr) rfl
  · exact frugal_atom .hostObjCount rfl

theorem hostFinalized_frugal (h : HostId) : hostTokens.Frugal (hostFinalized k h) ∅ := by
  refine .bind (fun _ => .bind (fun v => .bind (fun same => ?_) ?_) ?_) (frugal_atom .monitorEnter rfl)
  · cases same with
    | true => exact .bind (fun _ => frugal_atom (.monitorExit none) rfl) (clearStale_frugal k)
    | false => exact frugal_atom (.monitorExit none) rfl
  · exact frugal_atom (.equals h v) rfl
  · exact frugal_atom (.hostObjGet k .finalizer) rfl

theorem firstDispatch_frugal (obj : Option HostId) (rr : Nat) : hostTokens.Frugal (firstDispatch k obj rr) ∅ := by
  have hlog : ∀ (what : String) (e : Exn) (lvl : Int) (n : Option Int),
      hostTokens.Frugal (logException what e lvl (.ofRequest rr) >>= fun _ => pure n) ∅ :=
    fun what e lvl n => .bind (fun _ => .pure _) (frugal_text (logException_text what e lvl _))
  cases obj with
  | none => trivial
  | some host =>
    refine .tryCatch (.bind (fun _ => .pure _) (frugal_atom (.handleRequest .first k host rr) rfl)) fun e => ?_
    cases e <;> exact hlog _ _ _ _

theorem restartLocked_frugal (obj : Option HostId) (rr : Nat) : hostTokens.Frugal (restartLocked k obj rr) ∅ := by
  have hfail : ∀ what, hostTokens.Frugal (monitorExit none >>= fun _ =>
      logMapping what k APLOG_ERR (.ofRequest rr) >>= fun _ => pure (Restart.failed 500)) ∅ := fun what =>
    .bind (fun _ => .bind (fun _ => .pure _) (frugal_text (logMapping_text what k _ _)))
      (frugal_atom (.monitorExit none) rfl)
  have htarget : ∀ h, hostTokens.Frugal (monitorExit (some k) >>= fun _ => pure (Restart.target h)) ∅ :=
    fun h => .bind (fun _ => .pure _) (frugal_atom (.monitorExit (some k)) rfl)
  refine .bind (fun tryobj => .bind (fun obj => ?_) ?_) (frugal_atom (.hostObjGet k _) rfl)
  · cases obj with
    | some host => exact htarget host
    | none =>
      refine .bind (fun connected => ?_) (connectHost_frugal k)
      cases connected with
      | false => exact hfail _
      | true =>
        refine .bind (fun obj => ?_) (frugal_atom (.hostObjGet k .restarted) rfl)
        cases obj with
        | none => exact hfail _
        | some host => exact htarget host
  · unfold releaseStale
    split
    · exact .bind (fun _ => .pure _) (clearStale_frugal k)
    · trivial

theorem restart_frugal (obj : Option HostId) (rr : Nat) : hostTokens.Frugal (restart k obj rr) ∅ := by
  have hfailed : ∀ b e, hostTokens.Frugal (restartFailed k rr b e) ∅ := by
    refine fun b e => .bind (fun _ => .bind (fun _ => .bind (fun _ => .pure _) ?_) ?_) ?_
    · exact frugal_text (logException_text _ e _ _)
    · exact frugal_text (logMapping_text _ k _ _)
    · cases b with
      | true => exact frugal_atom (.monitorExit none) rfl
      | false => trivial
  refine .bind (fun entered => ?_) (.attempt (frugal_atom .monitorEnter rfl))
  cases entered with
  | error e => exact hfailed false e
  | ok _ => exact .tryCatch (restartLocked_frugal k obj rr) (hfailed true)

theorem handleHostRequest_frugal (rr : Nat) : hostTokens.Frugal (handleHostRequest k rr) ∅ := by
  refine .bind (fun obj => .bind (fun first => ?_) (firstDispatch_frugal k obj rr)) (frugal_atom (.hostObjGet k .entry) rfl)
  cases first with
  | some n => trivial
  | none =>
    refine .bind (fun _ => .bind (fun restarted => ?_) (restart_frugal k obj rr)) (frugal_text (logMapping_text _ k _ _))
    cases restarted with
    | failed n => trivial
    | target h =>
      refine .tryCatch (frugal_atom (.handleRequest .second k h rr) rfl) fun e => ?_
      exact .bind (fun _ => .pure _) (frugal_text (logException_text _ e _ _))

end

theorem destroy_frugal : hostTokens.Frugal destroy ∅ := by
  refine .of_performs (destroy_performs.imp fun o ho => ?_)
  cases o with
  | hostObjSet k v =>
    obtain rfl := of_decide_eq_true ho
    rfl
  | _ => rfl

/-- A host is stored by the call that made it, at most once. -/
theorem body_frugal : ∀ call, hostTokens.Frugal (factoryTasks.body call) ∅
  | .handleHostRequest k rr => handleHostRequest_frugal k rr
  | .hostFinalized k h => .bind (fun _ => .pure _) (hostFinalized_frugal k h)
  | .createHost v p svr => createHost_frugal v p svr
  | .destroy => .bind (fun _ => .pure _) destroy_frugal

/-! ## In every run -/

/-- An entry holds what was last stored in it. -/
def Shown (s : Factory) : Prop :=
  ∀ k h, item s.hostObj k = .ok (some h) → ∃ c, (writesOf s k).getLast? = some (.stored c k (some h))

theorem shown_new : Shown newFactory := by
  intro k h hk
  obtain ⟨xs, hxs, -, hx⟩ := item_eq_ok.mp hk
  cases hxs
  simp at hx

section
variable {s s' : Factory}

theorem Shown.unwritten (h : Shown s) (hu : Unwritten s s')
    (hobj : ∀ k h, item s'.hostObj k = .ok (some h) → item s.hostObj k = .ok (some h)) : Shown s' := by
  intro k host hk
  rw [hu.writesOf]
  exact h k host (hobj k host hk)

theorem Shown.store (h : Shown s) {c : Caller} {k : Int} {v v₀ : Option HostId} (hv₀ : item s.hostObj k = .ok v₀) :
    Shown (s.store c k v) := by
  intro k' host hk'
  rw [writesOf_append (l := [.stored c k v]) rfl]
  rw [item_store hv₀] at hk'
  split at hk'
  · rename_i he
    subst he
    cases hk'
    exact ⟨c, by simp [Event.writes]⟩
  · rename_i he
    simpa [Event.writes, Ne.symm he] using h k' host hk'

theorem exec_shown {t : Nat} {o : Op} {x : Choice} {r : Except Exn o.Ans} (h : Shown s)
    (hx : exec t o x s = some (r, s')) :
    Shown s' ∧ s.events <+: s'.events := by
  rcases exec_writes hx with ⟨k, v, v₀, -, hv₀, rfl⟩ | ⟨hu, hobj⟩
  · exact ⟨h.store hv₀, ⟨[.stored (s.caller t) k v], rfl⟩⟩
  · exact ⟨h.unwritten hu hobj, hu.isPrefix⟩

theorem enter_shown (t : Nat) (c : Call) (h : Shown s) : Shown (enter t c s) ∧ s.events <+: (enter t c s).events := by
  obtain ⟨hu, hobj, -⟩ := enter_unwritten t c s
  exact ⟨h.unwritten hu fun k host hk => by rwa [hobj] at hk, hu.isPrefix⟩

theorem placed_once {es : List Event} (hn : (es.filterMap Event.placed).Nodup) {e e' : Event} (he : e ∈ es)
    (he' : e' ∈ es) {h : HostId} (hp : e.placed = some h) (hp' : e'.placed = some h) : e = e' := by
  have : Std.Symm fun e e' : Event => ∀ h, e.placed = some h → ∀ h', e'.placed = some h' → h ≠ h' :=
    ⟨fun _ _ hapart h hp h' hp' => (hapart h' hp' h hp).symm⟩
  by_contra hne
  exact (List.pairwise_filterMap.mp hn).forall he he' hne h hp h hp' rfl

/-- An entry that holds a host at two moments holds it all the time between, and
no other entry does. -/
theorem one_tenure (hs : Shown s) (hs' : Shown s') (hn : (placedHosts s').Nodup) {l : List Event}
    (hl : s'.events = s.events ++ l) {k k' : Int} {h : HostId} (hk : item s.hostObj k = .ok (some h))
    (hk' : item s'.hostObj k' = .ok (some h)) : k' = k ∧ ∀ e ∈ l, e.writes k = false := by
  obtain ⟨c, hlast⟩ := hs k h hk
  obtain ⟨c', hlast'⟩ := hs' k' h hk'
  have hmem : Event.stored c k (some h) ∈ s.events := (List.mem_filter.mp (List.mem_of_getLast? hlast)).1
  have hmem' : Event.stored c' k' (some h) ∈ s'.events := (List.mem_filter.mp (List.mem_of_getLast? hlast')).1
  have hin : Event.stored c k (some h) ∈ s'.events := by rw [hl]; exact List.mem_append_left _ hmem
  -- the store that the later read shows is the one the earlier read shows
  obtain ⟨rfl, rfl⟩ : c = c' ∧ k = k' := by
    have := placed_once hn hin hmem' rfl rfl
    cases this
    exact ⟨rfl, rfl⟩
  refine ⟨rfl, ?_⟩
  have hnone : l.filter (Event.writes k) = [] := by
    by_contra hne
    rw [writesOf_append hl, List.getLast?_append_of_ne_nil _ hne] at hlast'
    have hagain : Event.stored c k (some h) ∈ l := (List.mem_filter.mp (List.mem_of_getLast? hlast')).1
    have hfirst : h ∈ placedHosts s := List.mem_filterMap.mpr ⟨_, hmem, rfl⟩
    rw [placedHosts_append hl] at hn
    exact (List.nodup_append.mp hn).2.2 h hfirst h (List.mem_filterMap.mpr ⟨_, hagain, rfl⟩) rfl
  intro e he
  have hnot := List.filter_eq_nil_iff.mp hnone e he
  exact Bool.eq_false_iff.mpr hnot

end

/-- The entry an operation read and the host it found. -/
def readHost : FDone → Option (Int × HostId)
  | ⟨.hostObjGet k _, .ok (some h), _⟩ => some (k, h)
  | _ => none

theorem readHost_eq {d : FDone} {k : Int} {h : HostId} (hd : readHost d = some (k, h)) {t : Nat} {x : Choice}
    {s' : Factory} (hx : exec t d.op x d.before = some (d.answer, s')) : item d.before.hostObj k = .ok (some h) := by
  obtain ⟨o, r, s⟩ := d
  unfold readHost at hd
  split at hd
  · rename_i k' site h' s₀ heq
    cases hd
    cases heq
    exact (exec_hostObjGet hx).1.symm
  · cases hd

theorem History.chained (H : History) (t : Nat) :
    Chained exec Shown (fun s s' => s.events <+: s'.events) (H.record t) H.last.shared := by
  refine (record_chained ?_ ?_ ?_ shown_new (fun _ => ⟨fun _ hd => absurd hd List.not_mem_nil, .nil⟩) H.ran).2 t
  · exact fun _ _ _ => List.IsPrefix.trans
  · exact fun _ _ _ _ _ _ h hx => exec_shown h hx
  · exact fun t call _ h => enter_shown t call h

/-- In every run a host is stored once. And where a call has read the same host
twice, it was of one entry, and nobody has written that entry in between: the host
that is found again is the one that was lost, never its successor. -/
theorem reads_exact (H : History) : (placedHosts H.last.shared).Nodup ∧
    ∀ t, (H.record t).Pairwise fun d d' => ∀ k k' h, readHost d = some (k, h) → readHost d' = some (k', h) →
      k' = k ∧ ∃ l, d'.before.events = d.before.events ++ l ∧ ∀ e ∈ l, e.writes k = false := by
  obtain ⟨held, hheld, -⟩ := Tokens.run (K := hostTokens) body_frugal
    (fun t c s => by simp only [hostTokens, factoryTasks, (enter_unwritten t c s).2.2])
    (fun t c s => (enter_unwritten t c s).1.placedHosts) (Tokens.inv_quiet rfl) H.ran
  refine ⟨hheld.nodup, fun t => (H.chained t).order.imp_of_mem fun {d d'} hd hd' hprefix k k' h hr hr' => ?_⟩
  obtain ⟨hshown, -, u, x, s, hx⟩ := (H.chained t).did d hd
  obtain ⟨hshown', ⟨rest, hrest⟩, u', x', s', hx'⟩ := (H.chained t).did d' hd'
  obtain ⟨l, hl⟩ := hprefix
  have hnodup : (placedHosts d'.before).Nodup := by
    have hall := hheld.nodup
    rw [show hostTokens.spent H.last.shared = _ from placedHosts_append hrest.symm] at hall
    exact (List.nodup_append.mp hall).1
  obtain ⟨hk, hw⟩ := one_tenure hshown hshown' hnodup hl.symm (readHost_eq hr hx) (readHost_eq hr' hx')
  exact ⟨hk, l, hl.symm, hw⟩

/-- The request reads the host, loses it, and finds it again under the monitor. -/
theorem reads_exact_lostMidway : (lostMidwayRun.record 1).filterMap readHost = [(0, 0), (0, 0)] ∧
    (lostMidwayRun.record 1).Pairwise fun d d' => ∀ k k' h, readHost d = some (k, h) → readHost d' = some (k', h) →
      k' = k ∧ ∃ l, d'.before.events = d.before.events ++ l ∧ ∀ e ∈ l, e.writes k = false :=
  ⟨by decide +kernel, (reads_exact lostMidwayRun).2 1⟩

end ModAspNet.L4.HostFactory
