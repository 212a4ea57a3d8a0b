import ModAspNet.Core.Record
import ModAspNet.L4Factory.Isolation

/-!
# The monitor is given back

`HandleHostRequest` enters the factory's monitor inside a `try` and leaves it in
five places: twice by hand before it returns 500, at the end of the section, and
in the handler. After an exit by hand the failure is still to be logged, inside
the `try`: if that raises, the handler leaves once more. `HostFinalized` has no
handler at all.

* `handleHostRequest_ends`: the shapes a request can have, as the monitor sees
  it.
* `monitor_given_back_iff`: in every run, a call gives the monitor back exactly
  when nothing raises after an exit by hand, and, in `HostFinalized`, neither
  the read of the list nor `Equals` raises.
* `monitor_free`: so, in a run of such calls, a thread outside a call is outside
  the monitor.
-/
namespace ModAspNet.L4.HostFactory

open ModAspNet.L1.Managed
open ModAspNet.Core

/-! ## The lock -/

abbrev FDone := Done Op Op.Ans Exn Factory

/-- How often the thread is inside the monitor. -/
def Factory.depth (s : Factory) (t : Nat) : Nat :=
  match s.monitor with
  | some (t', n) => if t' = t then n + 1 else 0
  | none => 0

def Op.enters : Op → Bool
  | .monitorEnter => true
  | _ => false

def Op.exits : Op → Bool
  | .monitorExit _ => true
  | _ => false

section
variable {t : Nat} {x : Choice} {s s' : Factory}

theorem depth_of_owner (h : s.owner ≠ some t) : s.depth t = 0 := by
  unfold Factory.depth
  unfold Factory.owner at h
  split
  · rename_i t' n hm
    rw [hm] at h
    exact if_neg fun he => h (by rw [← he]; rfl)
  · rfl

theorem exec_enters {o : Op} {r : Except Exn o.Ans} (ho : o.enters = true) (h : exec t o x s = some (r, s')) :
    (∃ a, r = .ok a ∧ s'.depth t = s.depth t + 1) ∨ (∃ e, r = .error e ∧ s'.depth t = s.depth t) := by
  cases o with
  | monitorEnter =>
    cases x <;> simp only [exec, reduceCtorEq] at h
    · split at h
      · rename_i hm; cases h; exact .inl ⟨(), rfl, by simp [Factory.depth, hm]⟩
      · rename_i t' n hm
        split at h
        · rename_i ht; cases h; exact .inl ⟨(), rfl, by simp [Factory.depth, hm, ht]⟩
        · cases h
    · cases h; exact .inr ⟨_, rfl, rfl⟩
  | _ => cases ho

theorem exec_exits {o : Op} {r : Except Exn o.Ans} (ho : o.exits = true) (h : exec t o x s = some (r, s')) :
    (∃ a, r = .ok a ∧ s'.depth t + 1 = s.depth t) ∨ (∃ e, r = .error e ∧ s.depth t = 0 ∧ s'.depth t = 0) := by
  cases o with
  | monitorExit section_end =>
    cases x <;> simp only [exec, reduceCtorEq] at h
    split at h
    · rename_i hm; cases h; exact .inr ⟨_, rfl, by simp [Factory.depth, hm]⟩
    · rename_i t' n hm
      split at h
      · rename_i ht
        cases h
        refine .inl ⟨(), rfl, ?_⟩
        by_cases hn : n = 0
        · simp [Factory.depth, Factory.note, hm, ht, hn]
        · simp [Factory.depth, Factory.note, hm, ht, hn]; omega
      · rename_i ht; cases h; exact .inr ⟨_, rfl, by simp [Factory.depth, hm, ht]⟩
  | _ => cases ho

theorem exec_rest {o : Op} {r : Except Exn o.Ans} (hin : o.enters = false) (hout : o.exits = false)
    (h : exec t o x s = some (r, s')) (t' : Nat) : s'.depth t' = s.depth t' := by
  cases exec_did h with
  | entered => cases hin
  | exited => cases hout
  | _ => rfl

theorem exec_others {o : Op} {r : Except Exn o.Ans} {t' : Nat} (hne : t' ≠ t) (h : exec t' o x s = some (r, s')) :
    s'.depth t = s.depth t := by
  have hnot : ∀ {u : Nat × Nat}, u.1 = t' → (if u.1 = t then u.2 + 1 else 0) = 0 := by
    rintro ⟨u, n⟩ rfl
    exact if_neg hne
  cases exec_did h with
  | entered n ho =>
    rw [depth_of_owner (s := s) fun hs => by rcases ho with ho | ho <;> rw [ho] at hs <;> cases hs; exact hne rfl]
    exact hnot (u := (t', n)) rfl
  | exited m ho hm =>
    rw [depth_of_owner (s := s) fun hs => by rw [ho] at hs; cases hs; exact hne rfl]
    rcases hm with rfl | ⟨n, rfl⟩
    · rfl
    · exact hnot (u := (t', n)) rfl
  | _ => rfl

end

def monitorLock : Lock exec where
  held t s := s.depth t
  enters := Op.enters
  exits := Op.exits
  apart o h := by cases o <;> first | rfl | cases h
  enter_ok ho h := by rcases exec_enters ho h with ⟨a, -, hd⟩ | ⟨e, he, -⟩ <;> [exact hd; cases he]
  enter_error ho h := by rcases exec_enters ho h with ⟨a, he, -⟩ | ⟨e, -, hd⟩ <;> [cases he; exact hd]
  exit_ok ho h := by rcases exec_exits ho h with ⟨a, -, hd⟩ | ⟨e, he, -⟩ <;> [exact hd; cases he]
  exit_error ho h := by rcases exec_exits ho h with ⟨a, he, -⟩ | ⟨e, -, hd⟩ <;> [cases he; exact hd]
  rest hin hout h := exec_rest hin hout h _
  other := exec_others

/-! ## Operations outside the monitor's -/

def Op.ofMonitor (o : Op) : Bool := o.enters || o.exits

/-- No operation on the monitor. -/
def Quiet (tr : List FDone) : Prop := ∀ d ∈ tr, d.op.ofMonitor = false

theorem Quiet.append {tr tr' : List FDone} (h : Quiet tr) (h' : Quiet tr') : Quiet (tr ++ tr') :=
  fun d hd => (List.mem_append.mp hd).elim (h d) (h' d)

theorem quiet_nil : Quiet [] := List.forall_mem_nil _

theorem quiet_one {d : FDone} (h : d.op.ofMonitor = false) : Quiet [d] := by
  intro d' hd
  rw [List.mem_singleton.mp hd, h]

theorem Quiet.exits {tr : List FDone} (h : Quiet tr) : ∀ d ∈ tr, d.op.exits = false :=
  fun d hd => (Bool.or_eq_false_iff.mp (h d hd)).2

theorem Quiet.left {tr : List FDone} (h : Quiet tr) : monitorLock.left tr = 0 := by
  refine List.countP_eq_zero.mpr fun d hd => ?_
  simp [monitorLock, h.exits d hd]

theorem Quiet.entered {tr : List FDone} (h : Quiet tr) : monitorLock.entered tr = 0 := by
  refine List.countP_eq_zero.mpr fun d hd => ?_
  simp [monitorLock, (Bool.or_eq_false_iff.mp (h d hd)).1]

section
variable {α : Type} {p : FProg α} {tr : List FDone} {r : Except Exn α} {k : Int}

theorem quiet_of_performs (hp : p.Performs (Op.ofMonitor · = false)) (h : p.Ends tr r) : Quiet tr := hp.ends h

theorem ofMonitor_of_connect (hp : p.Performs (Op.ofConnect k · = true)) : p.Performs (Op.ofMonitor · = false) := by
  refine hp.imp fun o ho => ?_
  cases o <;> first | rfl | cases ho

theorem quiet_logMapping {what : String} {loglevel : Int} {s : ServerPtr} {r : Except Exn Unit}
    (h : (logMapping what k loglevel s).Ends tr r) : Quiet tr :=
  quiet_of_performs (ofMonitor_of_connect (logMapping_performs k what loglevel s)) h

theorem quiet_connectHost {r : Except Exn Bool} (h : (connectHost k).Ends tr r) : Quiet tr :=
  quiet_of_performs (ofMonitor_of_connect (connectHost_performs k)) h

theorem quiet_read {site : ReadSite} {r : Except Exn (Option HostId)} (h : (hostObjGet k site).Ends tr r) : Quiet tr := by
  obtain ⟨s, rfl⟩ := Prog.ends_perform h
  exact quiet_one rfl

theorem quiet_firstDispatch {obj : Option HostId} {rr : Nat} {r : Except Exn (Option Int)}
    (h : (firstDispatch k obj rr).Ends tr r) : Quiet tr := by
  refine quiet_of_performs ?_ h
  have hlog : ∀ (what : String) (e : Exn) (lvl : Int) (n : Option Int),
      (logException what e lvl (.ofRequest rr) >>= fun _ => pure n).Performs (Op.ofMonitor · = false) :=
    fun what e lvl n => .bind (fun _ => .pure n) (ofMonitor_of_connect (logException_performs 0 what e lvl _))
  cases obj with
  | none => exact .pure none
  | some host =>
    refine .tryCatch (.bind (fun n => .pure (some n)) ?_) fun e => ?_
    · exact atom_performs (.handleRequest .first k host rr) rfl
    · cases e <;> exact hlog _ _ _ _

theorem quiet_secondDispatch {host : HostId} {rr : Nat} {r : Except Exn Int}
    (h : (secondDispatch k host rr).Ends tr r) : Quiet tr := by
  refine quiet_of_performs (.tryCatch (atom_performs (.handleRequest .second k host rr) rfl) fun e => ?_) h
  exact .bind (fun _ => .pure _) (ofMonitor_of_connect (logException_performs 0 _ e _ _))

end

/-! ## What exceptions tell -/

theorem straight_logMapping (what : String) (k : Int) (loglevel : Int) (s : ServerPtr) :
    (logMapping what k loglevel s).Straight Factory :=
  .bind (.perform _) fun _ => .bind (.perform _) fun _ => .bind (.perform _) fun _ => .perform _

theorem straight_connectMade (k : Int) (newHost : Option HostId) : (connectMade k newHost).Straight Factory := by
  refine .bind (.perform _) fun _ => ?_
  cases newHost with
  | some host => exact .bind (.perform _) fun _ => .bind (.perform _) fun _ => .bind (.perform _) fun _ => .pure true
  | none => exact .bind (.perform _) fun _ => .bind (.perform _) fun _ => .pure false

theorem straight_connectRaised (k : Int) (e : Exn) : (connectRaised k e).Straight Factory :=
  .bind (.perform _) fun _ => .bind (.perform _) fun _ => .bind (.perform _) fun _ => .bind (.perform _) fun _ =>
    .pure false

theorem telling_connectHost (k : Int) : (connectHost k).Telling Factory := by
  rw [connectHost_eq]
  refine .tryCatch (Prog.Straight.telling ?_) (fun e => (straight_connectRaised k e).telling) fun e => ⟨_, _, rfl⟩
  exact .bind (.perform _) fun _ => .bind (.perform _) fun _ => .bind (.perform _) fun v => straight_connectMade k v

theorem connectHost_performs_something {k : Int} {tr : List FDone} {r : Except Exn Bool}
    (h : (connectHost k).Ends tr r) : tr ≠ [] := by
  obtain ⟨a, s, tr', rfl, -⟩ := Prog.ends_call (show Prog.Ends (.call (.hostURIGet k) _) tr r from h)
  exact List.cons_ne_nil _ _

/-! ## The section -/

/-- What the section can perform, up to where the handler takes over. -/
inductive LockedTrace (k : Int) : List FDone → Except Exn Restart → Prop
  /-- something raised before any exit -/
  | raised {u e} (hu : Quiet u) (hl : lastRaised u = true) : LockedTrace k u (.error e)
  /-- an exit raised -/
  | unheld {u section_end e s} (hu : Quiet u) : LockedTrace k (u ++ [⟨.monitorExit section_end, .error e, s⟩]) (.error e)
  /-- an exit by hand, and the failure was logged -/
  | byHand {u s w} (hu : Quiet u) (hl : lastRaised u = false) (hw : Quiet w) (hok : ∀ d ∈ w, d.raised = false) :
      LockedTrace k (u ++ ⟨.monitorExit none, .ok (), s⟩ :: w) (.ok (.failed 500))
  /-- an exit by hand, and logging the failure raised -/
  | byHandRaised {u s w e} (hu : Quiet u) (hl : lastRaised u = false) (hw : Quiet w) (hlw : lastRaised w = true) :
      LockedTrace k (u ++ ⟨.monitorExit none, .ok (), s⟩ :: w) (.error e)
  /-- the exit at the end -/
  | atEnd {u s h} (hu : Quiet u) : LockedTrace k (u ++ [⟨.monitorExit (some k), .ok (), s⟩]) (.ok (.target h))

theorem releaseStale_ends {k : Int} {tryobj obj : Option HostId} {tr : List FDone} {r : Except Exn (Option HostId)}
    (h : (releaseStale k tryobj obj).Ends tr r) : Quiet tr ∧ ∃ v, r = .ok v := by
  unfold releaseStale at h
  split at h
  · rcases Prog.ends_bind h with ⟨e, rfl, hclear⟩ | ⟨a, tr₁, tr₂, rfl, hclear, hpure⟩
    · obtain ⟨v, hv⟩ := Prog.ends_caught hclear
      cases hv
    · obtain ⟨rfl, rfl⟩ := Prog.ends_pure hpure
      rw [List.append_nil]
      exact ⟨quiet_of_performs (ofMonitor_of_connect (clearStale_performs k)) hclear, _, rfl⟩
  · obtain ⟨rfl, rfl⟩ := Prog.ends_pure h
    exact ⟨quiet_nil, _, rfl⟩

/-- An exit by hand, after operations of which the last did not raise. -/
theorem failed_ends {k : Int} {rr : Nat} {what : String} {u tr : List FDone} {r : Except Exn Restart} (hu : Quiet u)
    (hl : lastRaised u = false)
    (h : Prog.Ends (monitorExit none >>= fun _ => logMapping what k APLOG_ERR (.ofRequest rr) >>= fun _ =>
      pure (Restart.failed 500)) tr r) : LockedTrace k (u ++ tr) r := by
  rcases Prog.ends_bind h with ⟨e, rfl, hexit⟩ | ⟨a, tr₁, w, rfl, hexit, hrest⟩
  · obtain ⟨s, rfl⟩ := Prog.ends_perform hexit
    exact .unheld hu
  · obtain ⟨s, rfl⟩ := Prog.ends_perform hexit
    rcases Prog.ends_bind hrest with ⟨e, rfl, hlog⟩ | ⟨a, tr₁, tr₂, rfl, hlog, hpure⟩
    · exact .byHandRaised hu hl (quiet_logMapping hlog) (straight_logMapping what k _ _ w _ hlog)
    · obtain ⟨rfl, rfl⟩ := Prog.ends_pure hpure
      rw [List.append_nil]
      exact .byHand hu hl (quiet_logMapping hlog) (straight_logMapping what k _ _ tr₁ _ hlog)

theorem target_ends {k : Int} {host : HostId} {u tr : List FDone} {r : Except Exn Restart} (hu : Quiet u)
    (h : Prog.Ends (monitorExit (some k) >>= fun _ => pure (Restart.target host)) tr r) :
    LockedTrace k (u ++ tr) r := by
  rcases Prog.ends_bind h with ⟨e, rfl, hexit⟩ | ⟨a, tr₁, tr₂, rfl, hexit, hpure⟩
  · obtain ⟨s, rfl⟩ := Prog.ends_perform hexit
    exact .unheld hu
  · obtain ⟨s, rfl⟩ := Prog.ends_perform hexit
    obtain ⟨rfl, rfl⟩ := Prog.ends_pure hpure
    rw [List.append_nil]
    exact .atEnd hu

/-- The part of the section for a request that has no object. -/
theorem connecting_ends {k : Int} {rr : Nat} {u tr : List FDone} {r : Except Exn Restart} (hu : Quiet u)
    (h : Prog.Ends (connectHost k >>= fun connected => match connected with
      | false => monitorExit none >>= fun _ =>
        logMapping "Mount failed to connect to the restarting host " k APLOG_ERR (.ofRequest rr) >>= fun _ =>
          pure (Restart.failed 500)
      | true => hostObjGet k .restarted >>= fun obj => match obj with
        | none => monitorExit none >>= fun _ =>
          logMapping "Mount failed to query the restarting host " k APLOG_ERR (.ofRequest rr) >>= fun _ =>
            pure (Restart.failed 500)
        | some host => monitorExit (some k) >>= fun _ => pure (Restart.target host)) tr r) :
    LockedTrace k (u ++ tr) r := by
  rcases Prog.ends_bind h with ⟨e, rfl, hc⟩ | ⟨connected, c, tr', rfl, hc, hrest⟩
  · refine .raised (hu.append (quiet_connectHost hc)) ?_
    rw [lastRaised_append (connectHost_performs_something hc)]
    exact telling_connectHost k tr _ hc
  · have huc := hu.append (quiet_connectHost hc)
    rw [← List.append_assoc]
    cases connected with
    | false =>
      refine failed_ends huc ?_ hrest
      rw [lastRaised_append (connectHost_performs_something hc)]
      exact telling_connectHost k c _ hc
    | true =>
      rcases Prog.ends_bind hrest with ⟨e, rfl, hget⟩ | ⟨obj, g, tr'', rfl, hget, htail⟩
      · obtain ⟨s, rfl⟩ := Prog.ends_perform hget
        exact .raised (huc.append (quiet_one rfl)) (lastRaised_snoc _ _)
      · obtain ⟨s, rfl⟩ := Prog.ends_perform hget
        rw [← List.append_assoc]
        cases obj with
        | none => exact failed_ends (huc.append (quiet_one rfl)) (lastRaised_snoc _ _) htail
        | some host => exact target_ends (huc.append (quiet_one rfl)) htail

theorem restartLocked_ends {k : Int} {obj : Option HostId} {rr : Nat} {tr : List FDone} {r : Except Exn Restart}
    (h : (restartLocked k obj rr).Ends tr r) : LockedTrace k tr r := by
  rcases Prog.ends_bind h with ⟨e, rfl, hget⟩ | ⟨tryobj, g, tr', rfl, hget, hrest⟩
  · obtain ⟨s, rfl⟩ := Prog.ends_perform hget
    exact .raised (quiet_one rfl) rfl
  · have hg := quiet_read hget
    rcases Prog.ends_bind hrest with ⟨e, rfl, hrel⟩ | ⟨obj', u, tr'', rfl, hrel, htail⟩
    · obtain ⟨-, v, hv⟩ := releaseStale_ends hrel
      cases hv
    · have hu := hg.append (releaseStale_ends hrel).1
      rw [← List.append_assoc]
      cases obj' with
      | none => exact connecting_ends hu htail
      | some host => exact target_ends hu htail

/-! ## A request -/

/-- What a request can perform, as the monitor sees it. -/
inductive RequestTrace : List FDone → Prop
  | outside {q} (hq : Quiet q) : RequestTrace q
  /-- `Enter` raised -/
  | refused {q e s z} (hq : Quiet q) (hz : Quiet z) : RequestTrace (q ++ ⟨.monitorEnter, .error e, s⟩ :: z)
  /-- one exit; after one by hand nothing raised -/
  | once {q s u section_end a s' z} (hq : Quiet q) (hu : Quiet u) (hz : Quiet z)
      (hcareful : section_end = none → lastRaised u = false → ∀ d ∈ z, d.raised = false) :
      RequestTrace (q ++ ⟨.monitorEnter, .ok (), s⟩ :: (u ++ ⟨.monitorExit section_end, a, s'⟩ :: z))
  /-- an exit by hand, and that of the handler -/
  | twice {q s u s' w b s'' z} (hq : Quiet q) (hu : Quiet u) (hw : Quiet w) (hz : Quiet z)
      (hl : lastRaised u = false) (hlw : lastRaised w = true) :
      RequestTrace (q ++ ⟨.monitorEnter, .ok (), s⟩ ::
        (u ++ ⟨.monitorExit none, .ok (), s'⟩ :: (w ++ ⟨.monitorExit none, b, s''⟩ :: z)))
  /-- the first exit raised -/
  | unheld {q s u section_end e s' z} (hq : Quiet q) (hu : Quiet u) :
      RequestTrace (q ++ ⟨.monitorEnter, .ok (), s⟩ :: (u ++ ⟨.monitorExit section_end, .error e, s'⟩ :: z))

section
variable {k : Int} {rr : Nat} {tr : List FDone}

theorem quiet_failedLog {e : Exn} {r : Except Exn Restart}
    (h : Prog.Ends (logMapping "Mount failure restarting host " k APLOG_ERR (.ofRequest rr) >>= fun _ =>
      logException "Mount failure exception restarting host; " e APLOG_ERR (.ofRequest rr) >>= fun _ =>
        pure (Restart.failed 500)) tr r) : Quiet tr := by
  refine quiet_of_performs (.bind (fun _ => .bind (fun _ => .pure _) ?_) ?_) h
  · exact ofMonitor_of_connect (logException_performs 0 _ e _ _)
  · exact ofMonitor_of_connect (logMapping_performs k _ _ _)

theorem restartFailed_ends {e : Exn} {r : Except Exn Restart} (h : (restartFailed k rr true e).Ends tr r) :
    ∃ a s z, tr = ⟨.monitorExit none, a, s⟩ :: z ∧ Quiet z := by
  rcases Prog.ends_bind h with ⟨e', rfl, hexit⟩ | ⟨a, tr₁, z, rfl, hexit, hlog⟩
  · obtain ⟨s, rfl⟩ := Prog.ends_perform hexit
    exact ⟨_, s, [], rfl, quiet_nil⟩
  · obtain ⟨s, rfl⟩ := Prog.ends_perform hexit
    exact ⟨_, s, z, rfl, quiet_failedLog hlog⟩

/-- With `z` performed after it, which is nothing unless there is a target. -/
theorem restart_ends {obj : Option HostId} {r : Except Exn Restart} {q z : List FDone} (hq : Quiet q) (hz : Quiet z)
    (hnone : (∀ host, r ≠ .ok (.target host)) → z = []) (h : (restart k obj rr).Ends tr r) :
    RequestTrace (q ++ (tr ++ z)) := by
  rcases Prog.ends_bind h with ⟨e, rfl, hen⟩ | ⟨entered, tr₁, tr₂, rfl, hen, hrest⟩
  · obtain ⟨r', hr', -⟩ := Prog.ends_attempt hen
    cases hr'
  · obtain ⟨r', hr', hen⟩ := Prog.ends_attempt hen
    obtain rfl := Except.ok.inj hr'
    obtain ⟨s, rfl⟩ := Prog.ends_perform hen
    cases entered with
    | error e =>
      rcases Prog.ends_bind hrest with ⟨e', rfl, hif⟩ | ⟨a, tr₃, w, rfl, hif, hlog⟩
      · obtain ⟨-, hr⟩ := Prog.ends_pure hif
        cases hr
      · obtain ⟨rfl, -⟩ := Prog.ends_pure hif
        exact .refused hq ((quiet_failedLog hlog).append hz)
    | ok _ =>
      rcases Prog.ends_tryCatch hrest with ⟨restarted, rfl, hlocked⟩ | ⟨e, v, f, rfl, hlocked, hfailed⟩
      · cases restartLocked_ends hlocked with
        | byHand hu hl hw hok =>
          rw [hnone fun host => by simp, List.append_nil]
          exact .once hq hu hw fun _ _ => hok
        | atEnd hu =>
          simp only [List.append_assoc, List.cons_append, List.nil_append]
          exact .once hq hu hz nofun
      · obtain ⟨a, s', w, rfl, hw⟩ := restartFailed_ends hfailed
        have hlocked := restartLocked_ends hlocked
        cases hlocked <;> simp only [List.append_assoc, List.cons_append, List.nil_append]
        case raised hu hl => exact .once hq hu (hw.append hz) fun _ hl' => by rw [hl] at hl'; cases hl'
        case unheld hu => exact .unheld hq hu
        case byHandRaised hu hl hw' hlw => exact .twice hq hu hw' (hw.append hz) hl hlw

theorem handleHostRequest_ends {r : Except Exn Int} (h : (handleHostRequest k rr).Ends tr r) : RequestTrace tr := by
  rcases Prog.ends_bind h with ⟨e, rfl, hget⟩ | ⟨obj, g, tl, rfl, hget, hfrom⟩
  · exact .outside (quiet_read hget)
  · rcases Prog.ends_bind hfrom with ⟨e, rfl, hfirst⟩ | ⟨first, f, tl, rfl, hfirst, hfell⟩
    · exact .outside ((quiet_read hget).append (quiet_firstDispatch hfirst))
    · have hq := (quiet_read hget).append (quiet_firstDispatch hfirst)
      rw [← List.append_assoc]
      cases first with
      | some status =>
        obtain ⟨rfl, rfl⟩ := Prog.ends_pure hfell
        exact .outside (hq.append quiet_nil)
      | none =>
        rcases Prog.ends_bind hfell with ⟨e, rfl, hlog⟩ | ⟨a, l, tl, rfl, hlog, hon⟩
        · exact .outside (hq.append (quiet_logMapping hlog))
        · have hql := hq.append (quiet_logMapping hlog)
          rw [← List.append_assoc]
          rcases Prog.ends_bind hon with ⟨e, rfl, hr⟩ | ⟨restarted, v, z, rfl, hr, hend⟩
          · rw [← List.append_nil tl]
            exact restart_ends hql quiet_nil (fun _ => rfl) hr
          · cases restarted with
            | failed status =>
              obtain ⟨rfl, rfl⟩ := Prog.ends_pure hend
              exact restart_ends hql quiet_nil (fun _ => rfl) hr
            | target host =>
              exact restart_ends hql (quiet_secondDispatch hend) (fun hno => absurd rfl (hno host)) hr

end

/-! ## A finalizer -/

/-- `thisHost->Equals(hostObj[HostKey])`: the read and the comparison. -/
def Op.compares : Op → Bool
  | .hostObjGet _ .finalizer => true
  | .equals _ _ => true
  | _ => false

/-- What a finalizer can perform, as the monitor sees it. -/
inductive FinalizerTrace : List FDone → Prop
  /-- `Enter` raised -/
  | refused {e s} : FinalizerTrace [⟨.monitorEnter, .error e, s⟩]
  /-- the read or the comparison raised -/
  | leaked {s u d} (hu : Quiet u) (hd : d.op.compares = true) (hraised : d.raised = true) :
      FinalizerTrace (⟨.monitorEnter, .ok (), s⟩ :: (u ++ [d]))
  | left {s u a s'} (hu : Quiet u) (hok : ∀ d ∈ u, d.op.compares = true → d.raised = false) :
      FinalizerTrace (⟨.monitorEnter, .ok (), s⟩ :: (u ++ [⟨.monitorExit none, a, s'⟩]))

theorem hostFinalized_ends {k : Int} {h : HostId} {tr : List FDone} {r : Except Exn Unit}
    (he : (hostFinalized k h).Ends tr r) : FinalizerTrace tr := by
  rcases Prog.ends_bind he with ⟨e, rfl, hen⟩ | ⟨a, tr₁, tl, rfl, hen, hread⟩
  · obtain ⟨s, rfl⟩ := Prog.ends_perform hen
    exact .refused
  · obtain ⟨s, rfl⟩ := Prog.ends_perform hen
    rcases Prog.ends_bind hread with ⟨e, rfl, hget⟩ | ⟨v, tr₂, tl, rfl, hget, hequals⟩
    · obtain ⟨s', rfl⟩ := Prog.ends_perform hget
      exact .leaked (u := []) quiet_nil rfl rfl
    · obtain ⟨s', rfl⟩ := Prog.ends_perform hget
      have hquiet := quiet_read hget
      rcases Prog.ends_bind hequals with ⟨e, rfl, heq⟩ | ⟨same, tr₃, tl, rfl, heq, hon⟩
      · obtain ⟨s'', rfl⟩ := Prog.ends_perform heq
        exact .leaked hquiet rfl rfl
      · obtain ⟨s'', rfl⟩ := Prog.ends_perform heq
        cases same with
        | false =>
          obtain ⟨s₃, rfl⟩ := Prog.ends_perform hon
          exact .left (u := [_, _]) (hquiet.append (quiet_one rfl)) (by simp [Done.raised])
        | true =>
          rcases Prog.ends_bind hon with ⟨e, rfl, hclear⟩ | ⟨u, c, tl, rfl, hclear, hexit⟩
          · obtain ⟨v, hv⟩ := Prog.ends_caught hclear
            cases hv
          · obtain ⟨s₃, rfl⟩ := Prog.ends_perform hexit
            have hperf : (Prog.tryCatch (hostObjSet k none) fun _ => pure ()).Performs (· = .hostObjSet k none) :=
              .tryCatch (atom_performs (.hostObjSet k none) rfl) fun _ => .pure ()
            have hset := hperf.ends hclear
            rw [← List.append_assoc, ← List.append_assoc]
            refine .left ((hquiet.append (quiet_one rfl)).append fun d hd => by rw [hset d hd]; rfl) ?_
            intro d hd hcomp
            rcases List.mem_append.mp hd with hd | hd
            · rcases List.mem_cons.mp hd with rfl | hd
              · rfl
              · rw [List.mem_singleton.mp hd]; rfl
            · rw [hset d hd] at hcomp
              cases hcomp

/-! ## The calls that do not enter -/

theorem quiet_createHost {v p : WString} {svr : Nat} {tr : List FDone} {r : Except Exn Int}
    (h : (createHost v p svr).Ends tr r) : Quiet tr := by
  refine quiet_of_performs (.bind (fun n => .bind (fun _ => .bind (fun _ => .bind (fun _ => .bind (fun _ =>
    .bind (fun connected => ?_) ?_) ?_) ?_) ?_) ?_) ?_) h
  · cases connected with
    | true => exact .pure n
    | false => exact .bind (fun _ => .pure _) (ofMonitor_of_connect (logMapping_performs n _ _ _))
  · exact ofMonitor_of_connect (connectHost_performs n)
  · exact atom_performs .hostObjAdd rfl
  · exact atom_performs (.hostDirAdd _) rfl
  · exact atom_performs (.hostURIAdd v) rfl
  · exact atom_performs (.hostSvrAdd svr) rfl
  · exact atom_performs .hostObjCount rfl

theorem quiet_destroy {tr : List FDone} {r : Except Exn Unit} (h : destroy.Ends tr r) : Quiet tr := by
  refine quiet_of_performs (destroy_performs.imp fun o ho => ?_) h
  cases o <;> first | rfl | cases ho

/-! ## Giving back -/

/-- The section was left by hand, and `post` was performed since. The handler's
exit is told from one by hand by the operation before it, which raised. -/
def LeftByHand (tr post : List FDone) : Prop :=
  ∃ pre s, tr = pre ++ ⟨.monitorExit none, .ok (), s⟩ :: post ∧ lastRaised pre = false

/-- After an exit by hand nothing raises; the read and the comparison of a
finalizer do not raise. -/
def Careful : Call → List FDone → Prop
  | .handleHostRequest _ _, tr => ∀ post, LeftByHand tr post → ∀ d ∈ post, d.raised = false
  | .hostFinalized _ _, tr => ∀ d ∈ tr, d.op.compares = true → d.raised = false
  | _, _ => True

/-- A list has one element that is `P` at most one way. -/
theorem unique_hit {α : Type} {P : α → Prop} {a b a' b' : List α} {x x' : α} (ha : ∀ y ∈ a, ¬ P y) (hb : ∀ y ∈ b, ¬ P y)
    (hx' : P x') (h : a ++ x :: b = a' ++ x' :: b') : a' = a ∧ x' = x ∧ b' = b := by
  rcases List.append_eq_append_iff.mp h with ⟨c, rfl, hc⟩ | ⟨c, rfl, hc⟩
  · cases c with
    | nil => exact ⟨List.append_nil a, (List.cons.inj hc).1.symm, (List.cons.inj hc).2.symm⟩
    | cons y c => exact absurd hx' (hb x' (by rw [(List.cons.inj hc).2]; simp))
  · cases c with
    | nil => exact ⟨(List.append_nil a').symm, (List.cons.inj hc).1, (List.cons.inj hc).2⟩
    | cons y c => exact absurd hx' (ha x' (by rw [(List.cons.inj hc).1]; simp))

section
variable {t n : Nat} {tr : List FDone} {s : Factory}

@[simp] theorem entered_enter :
    monitorLock.entered ((⟨.monitorEnter, (.ok () : Except Exn Unit), s⟩ : FDone) :: tr) = monitorLock.entered tr + 1 := List.countP_cons_of_pos rfl

@[simp] theorem entered_refused {e : Exn} :
    monitorLock.entered ((⟨.monitorEnter, (.error e : Except Exn Unit), s⟩ : FDone) :: tr) = monitorLock.entered tr := List.countP_cons_of_neg nofun

@[simp] theorem left_enter {r : Except Exn Unit} : monitorLock.left ((⟨.monitorEnter, r, s⟩ : FDone) :: tr) =
    monitorLock.left tr := List.countP_cons_of_neg nofun

@[simp] theorem entered_exit {section_end : Option Int} {r : Except Exn Unit} :
    monitorLock.entered ((⟨.monitorExit section_end, r, s⟩ : FDone) :: tr) = monitorLock.entered tr :=
  List.countP_cons_of_neg nofun

@[simp] theorem left_exit {section_end : Option Int} :
    monitorLock.left ((⟨.monitorExit section_end, (.ok () : Except Exn Unit), s⟩ : FDone) :: tr) =
      monitorLock.left tr + 1 :=
  List.countP_cons_of_pos rfl

theorem Quiet.no_exit (h : Quiet tr) {d : FDone} (hd : d ∈ tr) : monitorLock.exits d.op ≠ true :=
  Bool.eq_false_iff.mp (h.exits d hd)

theorem Quiet.givenBack (h : Quiet tr) : monitorLock.GivenBack t tr :=
  ⟨h.left.trans h.entered.symm, fun _ hd hexit => absurd hexit (h.no_exit hd)⟩

theorem givenBack_refused {q z : List FDone} {e : Exn} (hq : Quiet q) (hz : Quiet z) :
    monitorLock.GivenBack t (q ++ ⟨.monitorEnter, .error e, s⟩ :: z) := by
  refine ⟨by simp [hq.left, hz.left, hq.entered, hz.entered], fun d hd hexit => ?_⟩
  rcases List.mem_append.mp hd with hd | hd
  · exact absurd hexit (hq.no_exit hd)
  · rcases List.mem_cons.mp hd with rfl | hd
    · cases hexit
    · exact absurd hexit (hz.no_exit hd)

/-- The first exit after a successful `Enter` is granted. -/
theorem granted_once {q u z : List FDone} {s' : Factory} {section_end : Option Int} {a : Except Exn Unit}
    (hq : Quiet q) (hu : Quiet u)
    (h : monitorLock.Accounts t n (q ++ ⟨.monitorEnter, .ok (), s⟩ :: (u ++ ⟨.monitorExit section_end, a, s'⟩ :: z))) :
    a = .ok () ∧ 0 < monitorLock.held t s' := by
  have hlt : monitorLock.left (q ++ (⟨.monitorEnter, .ok (), s⟩ : FDone) :: u) <
      monitorLock.entered (q ++ (⟨.monitorEnter, .ok (), s⟩ : FDone) :: u) := by
    simp [hq.left, hu.left, hq.entered, hu.entered]
  have hsplit := List.append_assoc q (⟨.monitorEnter, .ok (), s⟩ :: u) (⟨.monitorExit section_end, a, s'⟩ :: z)
  obtain ⟨hok, hpos⟩ := h.granted monitorLock hsplit.symm rfl hlt
  cases a with
  | ok a => exact ⟨rfl, hpos⟩
  | error e => cases hok

/-- In once, and out once. -/
theorem givenBack_once {q u z : List FDone} {s' : Factory} {section_end : Option Int} {a : Except Exn Unit}
    (hq : Quiet q) (hu : Quiet u) (hz : Quiet z)
    (h : monitorLock.Accounts t n (q ++ ⟨.monitorEnter, .ok (), s⟩ :: (u ++ ⟨.monitorExit section_end, a, s'⟩ :: z))) :
    monitorLock.GivenBack t (q ++ ⟨.monitorEnter, .ok (), s⟩ :: (u ++ ⟨.monitorExit section_end, a, s'⟩ :: z)) := by
  obtain ⟨rfl, hpos⟩ := granted_once hq hu h
  refine ⟨by simp [hq.left, hu.left, hz.left, hq.entered, hu.entered, hz.entered], fun d hd hexit => ?_⟩
  rcases List.mem_append.mp hd with hd | hd
  · exact absurd hexit (hq.no_exit hd)
  · rcases List.mem_cons.mp hd with rfl | hd
    · cases hexit
    · rcases List.mem_append.mp hd with hd | hd
      · exact absurd hexit (hu.no_exit hd)
      · rcases List.mem_cons.mp hd with rfl | hd
        · exact hpos
        · exact absurd hexit (hz.no_exit hd)

/-- The handler's exit after one by hand is one too many. -/
theorem not_givenBack_twice {q u w z : List FDone} {s' s'' : Factory} {b : Except Exn Unit} (hq : Quiet q) (hu : Quiet u)
    (hw : Quiet w) (hz : Quiet z)
    (h : monitorLock.Accounts t n (q ++ ⟨.monitorEnter, .ok (), s⟩ ::
      (u ++ ⟨.monitorExit none, .ok (), s'⟩ :: (w ++ ⟨.monitorExit none, b, s''⟩ :: z)))) :
    ¬ monitorLock.GivenBack t (q ++ ⟨.monitorEnter, .ok (), s⟩ ::
      (u ++ ⟨.monitorExit none, .ok (), s'⟩ :: (w ++ ⟨.monitorExit none, b, s''⟩ :: z))) := by
  rintro ⟨heven, hholding⟩
  have hmem : (⟨.monitorExit none, b, s''⟩ : FDone) ∈ q ++ ⟨.monitorEnter, .ok (), s⟩ ::
      (u ++ ⟨.monitorExit none, .ok (), s'⟩ :: (w ++ ⟨.monitorExit none, b, s''⟩ :: z)) := by simp
  cases b with
  | ok b =>
    cases b
    simp [hq.left, hu.left, hw.left, hz.left, hq.entered, hu.entered, hw.entered, hz.entered] at heven
  | error e =>
    have hpos := hholding _ hmem rfl
    have hzero := (h.refused _ hmem rfl).mp rfl
    omega

theorem lastRaised_section (q u : List FDone) (s : Factory) :
    lastRaised (q ++ (⟨.monitorEnter, (.ok () : Except Exn Unit), s⟩ : FDone) :: u) = lastRaised u := by
  cases u with
  | nil => exact lastRaised_snoc q _
  | cons d u =>
    rw [List.append_cons, lastRaised_append (List.cons_ne_nil d u)]

theorem LeftByHand.mem {post : List FDone} (h : LeftByHand tr post) :
    ∃ s, (⟨.monitorExit none, (.ok () : Except Exn Unit), s⟩ : FDone) ∈ tr := by
  obtain ⟨pre, s, rfl, -⟩ := h
  exact ⟨s, by simp⟩

/-- A request gives the monitor back exactly when nothing raises after an exit
by hand. -/
theorem request_exact (h : RequestTrace tr) (hacc : monitorLock.Accounts t n tr) :
    monitorLock.GivenBack t tr ↔ ∀ post, LeftByHand tr post → ∀ d ∈ post, d.raised = false := by
  cases h with
  | outside hq =>
    refine iff_of_true hq.givenBack fun post hpost => ?_
    obtain ⟨s, hmem⟩ := hpost.mem
    exact absurd rfl (hq.no_exit hmem)
  | refused hq hz =>
    refine iff_of_true (givenBack_refused hq hz) fun post hpost => ?_
    obtain ⟨s, hmem⟩ := hpost.mem
    rcases List.mem_append.mp hmem with hmem | hmem
    · exact absurd rfl (hq.no_exit hmem)
    · rcases List.mem_cons.mp hmem with heq | hmem
      · cases congrArg Done.op heq
      · exact absurd rfl (hz.no_exit hmem)
  | @once q s u section_end a s' z hq hu hz hcareful =>
    refine iff_of_true (givenBack_once hq hu hz hacc) fun post hpost => ?_
    -- the exit of the section is the only one
    obtain ⟨pre, s'', heq, hl⟩ := hpost
    have hbefore : ∀ d ∈ q ++ (⟨.monitorEnter, (.ok () : Except Exn Unit), s⟩ : FDone) :: u, ¬ d.op.exits = true := by
      intro d hd
      rcases List.mem_append.mp hd with hd | hd
      · exact hq.no_exit hd
      · rcases List.mem_cons.mp hd with rfl | hd
        · exact nofun
        · exact hu.no_exit hd
    obtain ⟨rfl, hexit, rfl⟩ := unique_hit (P := fun d : FDone => d.op.exits = true) hbefore (fun d hd => hz.no_exit hd)
      rfl ((List.append_assoc q (⟨.monitorEnter, .ok (), s⟩ :: u) _).trans heq)
    rw [lastRaised_section] at hl
    cases hexit
    exact hcareful rfl hl
  | @twice q s u s' w b s'' z hq hu hw hz hl hlw =>
    refine iff_of_false (not_givenBack_twice hq hu hw hz hacc) fun hcareful => ?_
    obtain ⟨d, hd, hraised⟩ := exists_of_lastRaised hlw
    have hpost : LeftByHand _ (w ++ ⟨.monitorExit none, b, s''⟩ :: z) :=
      ⟨q ++ ⟨.monitorEnter, .ok (), s⟩ :: u, s', (List.append_assoc _ _ _).symm, by rw [lastRaised_section, hl]⟩
    rw [hcareful _ hpost d (List.mem_append_left _ hd)] at hraised
    cases hraised
  | unheld hq hu =>
    obtain ⟨herr, -⟩ := granted_once hq hu hacc
    cases herr

/-- A finalizer gives it back exactly when the read and the comparison do not
raise. -/
theorem finalizer_exact (h : FinalizerTrace tr) (hacc : monitorLock.Accounts t n tr) :
    monitorLock.GivenBack t tr ↔ ∀ d ∈ tr, d.op.compares = true → d.raised = false := by
  cases h with
  | refused => exact iff_of_true (givenBack_refused (q := []) quiet_nil quiet_nil) (by simp [Op.compares])
  | @leaked s u d hu hd hraised =>
    refine iff_of_false ?_ fun hok => ?_
    · rintro ⟨heven, -⟩
      have hquiet : Quiet (u ++ [d]) := by
        refine hu.append (quiet_one ?_)
        revert hd
        cases d.op <;> simp [Op.compares, Op.ofMonitor, Op.enters, Op.exits]
      simp [hquiet.left, hquiet.entered] at heven
    · rw [hok d (by simp) hd] at hraised
      cases hraised
  | @left s u a s' hu hok =>
    refine iff_of_true (givenBack_once (q := []) (z := []) quiet_nil hu quiet_nil hacc) fun d hd hcomp => ?_
    rcases List.mem_cons.mp hd with rfl | hd
    · cases hcomp
    · rcases List.mem_append.mp hd with hd | hd
      · exact hok d hd hcomp
      · rw [List.mem_singleton.mp hd] at hcomp
        cases hcomp

end

/-! ## In every run -/

/-- What each thread has performed in the call it is in. -/
def History.record (H : History) : Records Op Op.Ans Exn Factory :=
  Core.record exec factoryTasks (.quiet newFactory) (fun _ => []) H.actions

theorem depth_enter (t t' : Nat) (c : Call) (s : Factory) : (enter t c s).depth t' = s.depth t' := by
  cases c <;> rfl

def monitorTracks : Tracks exec factoryTasks := monitorLock.accountsTracks factoryTasks fun t t' c s => depth_enter t t' c s

theorem inv_quiet (K : Tracks exec factoryTasks) : K.Inv (fun _ => none) (fun _ => []) (.quiet newFactory) := nofun

/-- How a call that has ended was performed, and how it counts. -/
theorem History.ended (H : History) {t : Nat} {call : Call} {s₀ : Factory} {r : Except Exn Int}
    (hcall : H.calling t = some (call, s₀)) (hend : H.last.pool t = some (.ended r)) :
    (body call).Ends (H.record t) r ∧ monitorLock.Accounts t (s₀.depth t) (H.record t) ∧
      H.last.shared.depth t + monitorLock.left (H.record t) = s₀.depth t + monitorLock.entered (H.record t) := by
  obtain ⟨call', s', hκ, hcomes⟩ := (comesTracks exec factoryTasks).run (inv_quiet _) H.ran t _ hend
  cases hκ.symm.trans hcall
  obtain ⟨call', s', hκ, hacc⟩ := monitorTracks.run (inv_quiet _) H.ran t _ hend
  cases hκ.symm.trans hcall
  exact ⟨hcomes, hacc⟩

/-- A body that was performed to its end gives the monitor back exactly when the
call was careful. -/
theorem body_exact {t : Nat} {call : Call} {n : Nat} {tr : List FDone} {r : Except Exn Int}
    (hbody : (body call).Ends tr r) (hacc : monitorLock.Accounts t n tr) :
    monitorLock.GivenBack t tr ↔ Careful call tr := by
  cases call with
  | handleHostRequest k rr => exact request_exact (handleHostRequest_ends hbody) hacc
  | hostFinalized k h =>
    rcases Prog.ends_bind hbody with ⟨e, -, hfin⟩ | ⟨u, tr₁, tr₂, rfl, hfin, hpure⟩
    · exact finalizer_exact (hostFinalized_ends hfin) hacc
    · obtain ⟨rfl, -⟩ := Prog.ends_pure hpure
      rw [List.append_nil] at hacc ⊢
      exact finalizer_exact (hostFinalized_ends hfin) hacc
  | createHost v p svr => exact iff_of_true (quiet_createHost hbody).givenBack trivial
  | destroy =>
    refine iff_of_true ?_ trivial
    rcases Prog.ends_bind hbody with ⟨e, -, hd⟩ | ⟨u, tr₁, tr₂, rfl, hd, hpure⟩
    · exact (quiet_destroy hd).givenBack
    · obtain ⟨rfl, -⟩ := Prog.ends_pure hpure
      rw [List.append_nil]
      exact (quiet_destroy hd).givenBack

/-- For every run, with any calls of any threads and any failures in them: a
call that has ended has given the monitor back exactly when it was careful. -/
theorem monitor_given_back_iff (H : History) {t : Nat} {call : Call} {s₀ : Factory} {r : Except Exn Int}
    (hcall : H.calling t = some (call, s₀)) (hend : H.last.pool t = some (.ended r)) :
    monitorLock.GivenBack t (H.record t) ↔ Careful call (H.record t) := by
  obtain ⟨hbody, hacc, -⟩ := H.ended hcall hend
  exact body_exact hbody hacc

/-- Every call that ends in the run is careful. -/
def EveryCallCareful (as : List FAction) : Prop :=
  ∀ H : History, H.actions <+: as → ∀ t call s₀ r, H.calling t = some (call, s₀) → H.last.pool t = some (.ended r) →
    Careful call (H.record t)

/-- Outside a call no thread is in the monitor, and none was when its call began. -/
structure Free (c : FConfig) (κ : Calling Call Factory) : Prop where
  idle : ∀ t, c.pool t = none → c.shared.depth t = 0
  began : ∀ t p, c.pool t = some p → ∃ call s₀, κ t = some (call, s₀) ∧ s₀.depth t = 0

theorem Free.act {c c' : FConfig} {κ : Calling Call Factory} {a : FAction} (h : Free c κ)
    (ha : act exec factoryTasks c a = some c')
    (hend : ∀ t r call s₀, c.pool t = some (.ended r) → κ t = some (call, s₀) → c.shared.depth t = s₀.depth t) :
    Free c' (κ.after c.shared a) := by
  have hothers : ∀ t, t ≠ a.thread → c'.shared.depth t = c.shared.depth t := by
    intro t ht
    cases act_acts ha with
    | start h => exact depth_enter _ t _ _
    | step h hx => exact exec_others (Ne.symm ht) hx
    | finish h => rfl
  refine ⟨fun t hidle => ?_, fun t p hp => ?_⟩ <;> by_cases ht : t = a.thread
  · subst ht
    cases act_acts ha with
    | start => cases (setAt_self _ _ _).symm.trans hidle
    | step => cases (setAt_self _ _ _).symm.trans hidle
    | @finish t r hpool =>
      obtain ⟨call, s₀, hκ, hzero⟩ := h.began t _ hpool
      exact (hend t r call s₀ hpool hκ).trans hzero
  · rw [act_pool ha ht] at hidle
    rw [hothers t ht, h.idle t hidle]
  · subst ht
    cases act_acts ha with
    | @start t call hpool => exact ⟨call, c.shared, setAt_self _ _ _, h.idle t hpool⟩
    | @step t x o k r s hpool hx => exact h.began t _ hpool
    | finish => cases (setAt_self _ _ _).symm.trans hp
  · rw [act_pool ha ht] at hp
    rw [κ.after_of_ne _ ht]
    exact h.began t p hp

theorem free_of_careful (as : List FAction) : ∀ {c : FConfig}, run exec factoryTasks (.quiet newFactory) as = some c →
    EveryCallCareful as → Free c (Core.calling exec factoryTasks (.quiet newFactory) (fun _ => none) as) := by
  induction as using List.reverseRecOn with
  | nil =>
    intro c he _
    cases he
    exact ⟨fun _ _ => rfl, nofun⟩
  | append_singleton as a ih =>
    intro c he hcareful
    obtain ⟨c₁, hrun, ha⟩ := act_of_run_snoc he
    have hbefore := ih hrun fun H hH => hcareful H (hH.trans (List.prefix_append as [a]))
    rw [calling_append hrun, calling_cons ha]
    refine hbefore.act ha fun t r call s₀ hpool hκ => ?_
    -- the run so far, in which the call has ended
    obtain ⟨hbody, hacc, hcount⟩ := (History.mk as c₁ hrun).ended hκ hpool
    have hback := (body_exact hbody hacc).mpr
      (hcareful ⟨as, c₁, hrun⟩ (List.prefix_append as [a]) t call s₀ r hκ hpool)
    rw [hback.even] at hcount
    exact Nat.add_right_cancel hcount

/-- In a run of careful calls a thread outside a call is outside the monitor. -/
theorem monitor_free (H : History) (hcareful : EveryCallCareful H.actions) {t : Nat} (hidle : H.last.pool t = none) :
    H.last.shared.depth t = 0 :=
  (free_of_careful H.actions H.ran hcareful).idle t hidle

/-! ## Three runs -/

/-- Thread 0 creates the host of key 0. -/
def createdActions : List FAction :=
  List.flatten [[.start 0 (.createHost (wlit "/app") (wlit "C:/app") 0)], List.replicate 12 (.step 0 .ok), [.finish 0]]

def finalizedActions : List FAction :=
  List.flatten [createdActions, [.start 1 (.hostFinalized 0 0)], List.replicate 5 (.step 1 .ok)]

/-- The host is finalized, and the entry cleared. -/
def finalizedRun : History where
  actions := finalizedActions
  last := (run exec factoryTasks (.quiet newFactory) finalizedActions).get (by decide +kernel)
  ran := by rw [Option.some_get]

theorem monitor_given_back_finalized : monitorLock.GivenBack 1 (finalizedRun.record 1) := by
  obtain ⟨s₀, hcall⟩ : ∃ s₀, finalizedRun.calling 1 = some (.hostFinalized 0 0, s₀) := ⟨_, rfl⟩
  have hend : finalizedRun.last.pool 1 = some (.ended (.ok 0)) := rfl
  have hcareful : ∀ d ∈ finalizedRun.record 1, d.op.compares = true → d.raised = false := by decide +kernel
  exact (monitor_given_back_iff finalizedRun hcall hend).mpr hcareful

def leakedActions : List FAction :=
  List.flatten [createdActions, [.start 0 .destroy], List.replicate 8 (.step 0 .ok),
    [.finish 0, .start 1 (.hostFinalized 0 0), .step 1 .ok, .step 1 .ok]]

/-- The host is finalized after `Destroy`: thread 1 enters, and the list is null. -/
def leakedRun : History where
  actions := leakedActions
  last := (run exec factoryTasks (.quiet newFactory) leakedActions).get (by decide +kernel)
  ran := by rw [Option.some_get]

theorem monitor_leaked : ¬ ∀ (H : History) (t : Nat) (call : Call) (s₀ : Factory) (r : Except Exn Int),
    H.calling t = some (call, s₀) → H.last.pool t = some (.ended r) → monitorLock.GivenBack t (H.record t) := by
  intro h
  obtain ⟨s₀, hcall⟩ : ∃ s₀, leakedRun.calling 1 = some (.hostFinalized 0 0, s₀) := ⟨_, rfl⟩
  have hend : leakedRun.last.pool 1 = some (.ended (.error .NullReferenceException)) := rfl
  have heven : monitorLock.left (leakedRun.record 1) ≠ monitorLock.entered (leakedRun.record 1) := by decide +kernel
  exact heven (h leakedRun 1 (.hostFinalized 0 0) s₀ (.error .NullReferenceException) hcall hend).even

def twiceActions : List FAction :=
  List.flatten [[.start 0 (.createHost (wlit "/app") (wlit "C:/app") 0)], List.replicate 7 (.step 0 .ok),
    [.step 0 .null], List.replicate 7 (.step 0 .ok), [.finish 0, .start 1 (.handleHostRequest 0 7)],
    List.replicate 10 (.step 1 .ok), [.step 1 .null], List.replicate 7 (.step 1 .ok),
    [.step 1 (.raise false (.other (wlit "no memory"))), .step 1 .ok]]

/-- Hosts cannot be created. The request leaves by hand, logging that raises, and
the handler's exit leaves the function with an exception. -/
example : ((record exec factoryTasks (.quiet newFactory) (fun _ => []) twiceActions 1).filter (Op.exits ∘ Done.op)).map
    Done.raised = [false, true] := by decide +kernel

end ModAspNet.L4.HostFactory
