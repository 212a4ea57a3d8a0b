import ModAspNet.L4Factory.Recovery

/-!
# How a request ends

`HandleHostRequest` returns what a host's `HandleRequest` returned, at the first
dispatch or after the restart section, or 500. The 500 is returned in six
places, and an error is logged for the request before each.

* `handleHostRequest_outcome`: the ways a request can end, by what it performed.
* `answered_or_reported`: in every run, a request is answered by one host, whose
  status is its last operation, or it is reported in the error log, or an
  exception leaves the function and the host has not answered.
-/
namespace ModAspNet.L4.HostFactory

open ModAspNet.L1.Managed
open ModAspNet.Core

/-! ## Answers and reports -/

/-- No host returned a status. -/
def Unanswered (tr : List FDone) : Prop := ∀ d ∈ tr, d.op.isDispatch = true → d.raised = true

/-- An error was logged for the request. -/
def Reported (rr : Nat) (tr : List FDone) : Prop :=
  ∃ msg s, (⟨.logServerError msg APLOG_ERR (.ofRequest rr), .ok (), s⟩ : FDone) ∈ tr

/-- How a request can end. -/
inductive Outcome (k : Int) (rr : Nat) : List FDone → Except Exn Int → Prop
  | answered {pre site h n s} (hpre : Unanswered pre) :
      Outcome k rr (pre ++ [⟨.handleRequest site k h rr, .ok n, s⟩]) (.ok n)
  | reported {tr} (htr : Unanswered tr) (hr : Reported rr tr) : Outcome k rr tr (.ok 500)
  | raised {tr e} (htr : Unanswered tr) (hl : lastRaised tr = true) : Outcome k rr tr (.error e)

section
variable {rr : Nat} {tr tr' : List FDone}

theorem unanswered_nil : Unanswered [] := List.forall_mem_nil _

theorem Unanswered.append (h : Unanswered tr) (h' : Unanswered tr') : Unanswered (tr ++ tr') :=
  fun d hd => (List.mem_append.mp hd).elim (h d) (h' d)

theorem unanswered_one {d : FDone} (h : d.op.isDispatch = false) : Unanswered [d] := by
  intro d' hd hop
  rw [List.mem_singleton.mp hd, h] at hop
  cases hop

theorem unanswered_of_performs {α : Type} {p : FProg α} {r : Except Exn α} (hp : p.Performs (Op.isDispatch · = false))
    (h : p.Ends tr r) : Unanswered tr := by
  intro d hd hop
  rw [hp.ends h d hd] at hop
  cases hop

theorem other_of_text {α : Type} {p : FProg α} (hp : p.Performs (Op.isText · = true)) :
    p.Performs (Op.isDispatch · = false) := by
  refine hp.imp fun o ho => ?_
  cases o <;> first | rfl | cases ho

theorem Reported.left (h : Reported rr tr) (tr' : List FDone) : Reported rr (tr ++ tr') := by
  obtain ⟨msg, s, hm⟩ := h
  exact ⟨msg, s, List.mem_append_left _ hm⟩

theorem Reported.right (h : Reported rr tr') (tr : List FDone) : Reported rr (tr ++ tr') := by
  obtain ⟨msg, s, hm⟩ := h
  exact ⟨msg, s, List.mem_append_right _ hm⟩

theorem lastRaised_right (h : lastRaised tr' = true) (tr : List FDone) : lastRaised (tr ++ tr') = true := by
  have hne : tr' ≠ [] := by rintro rfl; cases h
  rw [lastRaised_append hne, h]

/-- Before what ends with a report or an exception, nothing was answered. -/
theorem Outcome.after {k : Int} {r : Except Exn Int} (h : Outcome k rr tr' r) (htr : Unanswered tr) :
    Outcome k rr (tr ++ tr') r := by
  cases h with
  | answered hpre => rw [← List.append_assoc]; exact .answered (htr.append hpre)
  | reported htr' hr => exact .reported (htr.append htr') (hr.right tr)
  | raised htr' hl => exact .raised (htr.append htr') (lastRaised_right hl tr)

end

theorem answered_alone {k : Int} {rr : Nat} {site : DispatchSite} {h : HostId} {n : Int} {s : Factory} :
    Outcome k rr [⟨.handleRequest site k h rr, .ok n, s⟩] (.ok n) := by
  rw [← List.nil_append [_]]
  exact .answered unanswered_nil

/-! ## Logging for the request -/

/-- What the program performs answers nothing, reports to the log if it returns,
and otherwise its last operation raised. -/
def Reports (rr : Nat) (p : FProg Unit) : Prop :=
  ∀ (tr : List FDone) r, p.Ends tr r → Unanswered tr ∧ match r with
    | .ok _ => Reported rr tr
    | .error _ => lastRaised tr = true

theorem reports_logServerError (rr : Nat) (msg : WString) :
    Reports rr (logServerError msg APLOG_ERR (.ofRequest rr)) := by
  intro tr r h
  obtain ⟨s, rfl⟩ := Prog.ends_perform h
  refine ⟨unanswered_one rfl, ?_⟩
  cases r with
  | ok u => exact ⟨msg, s, List.mem_singleton.mpr rfl⟩
  | error e => rfl

/-- One operation that does not dispatch before the report. -/
theorem Reports.bind {rr : Nat} {o : Op} (ho : o.isDispatch = false) {f : o.Ans → FProg Unit}
    (hf : ∀ a, Reports rr (f a)) : Reports rr (atom o >>= f) := by
  intro tr r h
  rcases Prog.ends_bind h with ⟨e, rfl, hraised⟩ | ⟨a, tr₁, tr₂, rfl, hdone, hrest⟩
  · obtain ⟨s, rfl⟩ := Prog.ends_perform hraised
    exact ⟨unanswered_one ho, rfl⟩
  · obtain ⟨s, rfl⟩ := Prog.ends_perform hdone
    obtain ⟨hun, hr⟩ := hf a tr₂ r hrest
    refine ⟨(unanswered_one ho).append hun, ?_⟩
    cases r with
    | ok u => exact hr.right _
    | error e => exact lastRaised_right hr _

theorem reports_logException (rr : Nat) (what : String) (e : Exn) :
    Reports rr (logException what e APLOG_ERR (.ofRequest rr)) :=
  .bind rfl fun msg => reports_logServerError rr msg

theorem reports_logMapping (rr : Nat) (what : String) (k : Int) :
    Reports rr (logMapping what k APLOG_ERR (.ofRequest rr)) :=
  .bind rfl fun _ => .bind rfl fun _ => .bind rfl fun msg => reports_logServerError rr msg

/-- A report, and then the value of a failure. -/
theorem Reports.ends {rr : Nat} {p : FProg Unit} (hp : Reports rr p) {α : Type} {v : α} {tr : List FDone}
    {r : Except Exn α} (h : Prog.Ends (p >>= fun _ => pure v) tr r) :
    Unanswered tr ∧ ((r = .ok v ∧ Reported rr tr) ∨ ∃ e, r = .error e ∧ lastRaised tr = true) := by
  rcases Prog.ends_bind h with ⟨e, rfl, hraised⟩ | ⟨u, tr₁, tr₂, rfl, hdone, hpure⟩
  · obtain ⟨hun, hl⟩ := hp tr _ hraised
    exact ⟨hun, .inr ⟨e, rfl, hl⟩⟩
  · obtain ⟨rfl, rfl⟩ := Prog.ends_pure hpure
    obtain ⟨hun, hr⟩ := hp tr₁ _ hdone
    rw [List.append_nil]
    exact ⟨hun, .inl ⟨rfl, hr⟩⟩

/-! ## The parts of a request -/

section
variable {k : Int} {rr : Nat} {tr : List FDone}

/-- A failed restart has been reported. -/
def RestartOutcome (rr : Nat) (tr : List FDone) : Except Exn Restart → Prop
  | .ok (.failed n) => n = 500 ∧ Reported rr tr
  | .ok (.target _) => True
  | .error _ => lastRaised tr = true

theorem RestartOutcome.after {pre : List FDone} {r : Except Exn Restart} (h : RestartOutcome rr tr r) :
    RestartOutcome rr (pre ++ tr) r := by
  rcases r with e | n | host
  · exact lastRaised_right h pre
  · exact ⟨h.1, h.2.right pre⟩
  · trivial

/-- An exit by hand before the report. -/
theorem failed_outcome {p : FProg Unit} (hp : Reports rr p) {r : Except Exn Restart}
    (h : Prog.Ends (monitorExit none >>= fun _ => p >>= fun _ => pure (Restart.failed 500)) tr r) :
    Unanswered tr ∧ RestartOutcome rr tr r := by
  rcases Prog.ends_bind h with ⟨e, rfl, hexit⟩ | ⟨u, tr₁, tr₂, rfl, hexit, hrest⟩
  · obtain ⟨s, rfl⟩ := Prog.ends_perform hexit
    exact ⟨unanswered_one rfl, rfl⟩
  · obtain ⟨s, rfl⟩ := Prog.ends_perform hexit
    obtain ⟨hun, hr⟩ := hp.ends hrest
    refine ⟨(unanswered_one rfl).append hun, .after ?_⟩
    rcases hr with ⟨rfl, hr⟩ | ⟨e, rfl, hl⟩
    · exact ⟨rfl, hr⟩
    · exact hl

theorem target_outcome {host : HostId} {r : Except Exn Restart}
    (h : Prog.Ends (monitorExit (some k) >>= fun _ => pure (Restart.target host)) tr r) :
    Unanswered tr ∧ RestartOutcome rr tr r := by
  rcases Prog.ends_bind h with ⟨e, rfl, hexit⟩ | ⟨u, tr₁, tr₂, rfl, hexit, hpure⟩
  · obtain ⟨s, rfl⟩ := Prog.ends_perform hexit
    exact ⟨unanswered_one rfl, rfl⟩
  · obtain ⟨s, rfl⟩ := Prog.ends_perform hexit
    obtain ⟨rfl, rfl⟩ := Prog.ends_pure hpure
    exact ⟨unanswered_one rfl, trivial⟩

/-- An operation of the section that answers nothing, and what follows. -/
theorem locked_bind {α : Type} {p : FProg α} (hp : p.Performs (Op.isDispatch · = false)) {f : α → FProg Restart}
    (hf : ∀ a tr r, (f a).Ends tr r → Unanswered tr ∧ ∀ v, r = .ok v → RestartOutcome rr tr (.ok v))
    {r : Except Exn Restart} (h : Prog.Ends (p >>= f) tr r) :
    Unanswered tr ∧ ∀ v, r = .ok v → RestartOutcome rr tr (.ok v) := by
  rcases Prog.ends_bind h with ⟨e, rfl, hraised⟩ | ⟨a, tr₁, tr₂, rfl, hdone, hrest⟩
  · exact ⟨unanswered_of_performs hp hraised, nofun⟩
  · obtain ⟨hun, hr⟩ := hf a tr₂ r hrest
    exact ⟨(unanswered_of_performs hp hdone).append hun, fun v hv => (hr v hv).after⟩

/-- The section answers nothing, and has reported a failure it returns. -/
theorem restartLocked_outcome {obj : Option HostId} {r : Except Exn Restart} (h : (restartLocked k obj rr).Ends tr r) :
    Unanswered tr ∧ ∀ v, r = .ok v → RestartOutcome rr tr (.ok v) := by
  have hfailed : ∀ what (tr : List FDone) r, Prog.Ends (monitorExit none >>= fun _ =>
      logMapping what k APLOG_ERR (.ofRequest rr) >>= fun _ => pure (Restart.failed 500)) tr r →
      Unanswered tr ∧ ∀ v, r = .ok v → RestartOutcome rr tr (.ok v) := by
    intro what tr r h
    obtain ⟨hun, hr⟩ := failed_outcome (reports_logMapping rr what k) h
    exact ⟨hun, fun v hv => hv ▸ hr⟩
  have htarget : ∀ host (tr : List FDone) r, Prog.Ends (monitorExit (some k) >>= fun _ => pure (Restart.target host)) tr r →
      Unanswered tr ∧ ∀ v, r = .ok v → RestartOutcome rr tr (.ok v) := by
    intro host tr r h
    obtain ⟨hun, hr⟩ : Unanswered tr ∧ RestartOutcome rr tr r := target_outcome h
    exact ⟨hun, fun v hv => hv ▸ hr⟩
  refine locked_bind (Prog.Performs.perform rfl) (fun tryobj tr r h => ?_) h
  refine locked_bind ?_ (fun obj tr r h => ?_) h
  · unfold releaseStale
    split
    · exact .bind (fun _ => .pure _) (other_of_connect (clearStale_performs k))
    · exact .pure obj
  cases obj with
  | some host => exact htarget host tr r h
  | none =>
    refine locked_bind (connectHost_other k) (fun connected tr r h => ?_) h
    cases connected with
    | false => exact hfailed _ tr r h
    | true =>
      refine locked_bind (Prog.Performs.perform rfl) (fun obj tr r h => ?_) h
      cases obj with
      | none => exact hfailed _ tr r h
      | some host => exact htarget host tr r h

theorem restartFailed_outcome {welocked : Bool} {e : Exn} {r : Except Exn Restart}
    (h : (restartFailed k rr welocked e).Ends tr r) : Unanswered tr ∧ RestartOutcome rr tr r := by
  have hlog : ∀ {tr : List FDone} {r}, Prog.Ends (logMapping "Mount failure restarting host " k APLOG_ERR (.ofRequest rr) >>=
      fun _ => logException "Mount failure exception restarting host; " e APLOG_ERR (.ofRequest rr) >>= fun _ =>
        pure (Restart.failed 500)) tr r → Unanswered tr ∧ RestartOutcome rr tr r := by
    intro tr r h
    rcases Prog.ends_bind h with ⟨e', rfl, hraised⟩ | ⟨u, tr₁, tr₂, rfl, hdone, hrest⟩
    · exact reports_logMapping rr _ k tr _ hraised
    · obtain ⟨hun, -⟩ := reports_logMapping rr _ k tr₁ _ hdone
      obtain ⟨hun', hr⟩ := (reports_logException rr _ e).ends hrest
      refine ⟨hun.append hun', .after ?_⟩
      rcases hr with ⟨rfl, hr⟩ | ⟨e', rfl, hl⟩
      · exact ⟨rfl, hr⟩
      · exact hl
  rcases Prog.ends_bind h with ⟨e', rfl, hexit⟩ | ⟨u, tr₁, tr₂, rfl, hexit, hrest⟩
  · cases welocked with
    | false => obtain ⟨-, hr⟩ := Prog.ends_pure hexit; cases hr
    | true =>
      obtain ⟨s, rfl⟩ := Prog.ends_perform hexit
      exact ⟨unanswered_one rfl, rfl⟩
  · obtain ⟨hun, hr⟩ := hlog hrest
    refine ⟨Unanswered.append ?_ hun, hr.after⟩
    cases welocked with
    | false => rw [(Prog.ends_pure hexit).1]; exact unanswered_nil
    | true =>
      obtain ⟨s, rfl⟩ := Prog.ends_perform hexit
      exact unanswered_one rfl

theorem restart_outcome {obj : Option HostId} {r : Except Exn Restart} (h : (restart k obj rr).Ends tr r) :
    Unanswered tr ∧ RestartOutcome rr tr r := by
  rcases Prog.ends_bind h with ⟨e, rfl, hen⟩ | ⟨entered, tr₁, tr₂, rfl, hen, hrest⟩
  · obtain ⟨r', hr', -⟩ := Prog.ends_attempt hen
    cases hr'
  · obtain ⟨r', hr', hen⟩ := Prog.ends_attempt hen
    obtain rfl := Except.ok.inj hr'
    obtain ⟨s, rfl⟩ := Prog.ends_perform hen
    have hafter : ∀ {tr : List FDone}, Unanswered tr ∧ RestartOutcome rr tr r →
        Unanswered ([⟨.monitorEnter, entered, s⟩] ++ tr) ∧
          RestartOutcome rr ([⟨.monitorEnter, entered, s⟩] ++ tr) r :=
      fun ⟨hun, hr⟩ => ⟨(unanswered_one rfl).append hun, hr.after⟩
    cases entered with
    | error e => exact hafter (restartFailed_outcome hrest)
    | ok _ =>
      rcases Prog.ends_tryCatch hrest with ⟨v, rfl, hlocked⟩ | ⟨e, v, f, rfl, hlocked, hfailed⟩
      · obtain ⟨hun, hr⟩ := restartLocked_outcome hlocked
        exact hafter ⟨hun, hr v rfl⟩
      · obtain ⟨hun, hr⟩ := restartFailed_outcome hfailed
        exact hafter ⟨(restartLocked_outcome hlocked).1.append hun, hr.after⟩

theorem secondDispatch_outcome {host : HostId} {r : Except Exn Int} (h : (secondDispatch k host rr).Ends tr r) :
    Outcome k rr tr r := by
  rcases Prog.ends_tryCatch h with ⟨n, rfl, hcall⟩ | ⟨e, tr₁, tr₂, rfl, hcall, hlog⟩
  · obtain ⟨s, rfl⟩ := Prog.ends_perform hcall
    exact answered_alone
  · obtain ⟨s, rfl⟩ := Prog.ends_perform hcall
    refine Outcome.after ?_ fun d (hd : d ∈ [_]) _ => by rw [List.mem_singleton.mp hd]; rfl
    obtain ⟨hun, ⟨rfl, hr⟩ | ⟨e', rfl, hl⟩⟩ := (reports_logException rr _ e).ends hlog
    · exact .reported hun hr
    · exact .raised hun hl

/-- The first dispatch ends the request, or nothing was answered. -/
theorem firstDispatch_outcome {obj : Option HostId} {r : Except Exn (Option Int)}
    (h : (firstDispatch k obj rr).Ends tr r) : match r with
      | .ok none => Unanswered tr
      | .ok (some n) => Outcome k rr tr (.ok n)
      | .error e => Outcome k rr tr (.error e) := by
  have hpre : ∀ {host : HostId} {e : Exn} {s : Factory},
      Unanswered [(⟨.handleRequest .first k host rr, .error e, s⟩ : FDone)] :=
    fun d hd _ => by rw [List.mem_singleton.mp hd]; rfl
  cases firstDispatch_ends h with
  | nothing => exact unanswered_nil
  | answered => exact answered_alone
  | @lost host e s what tr r he hlog =>
    have hun := unanswered_of_performs (.bind (fun _ => .pure _) (other_of_text (logException_text what e _ _))) hlog
    rcases Prog.ends_bind hlog with ⟨e', rfl, hraised⟩ | ⟨u, tr₁, tr₂, rfl, -, hpure⟩
    · have hstraight : (logException what e APLOG_DEBUG (.ofRequest rr)).Straight Factory :=
        .bind (.perform _) fun _ => .perform _
      exact (Outcome.raised hun (hstraight tr _ hraised)).after hpre
    · obtain ⟨rfl, rfl⟩ := Prog.ends_pure hpure
      exact hpre.append hun
  | @failed host e s what tr r he hlog =>
    obtain ⟨hun, ⟨rfl, hr⟩ | ⟨e', rfl, hl⟩⟩ := (reports_logException rr what e).ends hlog
    · exact (Outcome.reported hun hr).after hpre
    · exact (Outcome.raised hun hl).after hpre

theorem handleHostRequest_outcome {r : Except Exn Int} (h : (handleHostRequest k rr).Ends tr r) : Outcome k rr tr r := by
  rcases Prog.ends_bind h with ⟨e, rfl, hget⟩ | ⟨obj, g, tl, rfl, hget, hfrom⟩
  · obtain ⟨s, rfl⟩ := Prog.ends_perform hget
    exact .raised (unanswered_one rfl) rfl
  · obtain ⟨s, rfl⟩ := Prog.ends_perform hget
    refine .after ?_ (unanswered_one rfl)
    rcases Prog.ends_bind hfrom with ⟨e, rfl, hfirst⟩ | ⟨first, f, tl, rfl, hfirst, hfell⟩
    · exact firstDispatch_outcome hfirst
    · have houtcome := firstDispatch_outcome hfirst
      cases first with
      | some n =>
        obtain ⟨rfl, rfl⟩ := Prog.ends_pure hfell
        rw [List.append_nil]
        exact houtcome
      | none =>
        refine .after ?_ houtcome
        rcases Prog.ends_bind hfell with ⟨e, rfl, hlog⟩ | ⟨u, l, tl, rfl, hlog, hon⟩
        · refine .raised (unanswered_of_performs (other_of_text (logMapping_text _ k _ _)) hlog) ?_
          exact straight_logMapping _ k _ _ _ _ hlog
        · refine .after ?_ (unanswered_of_performs (other_of_text (logMapping_text _ k _ _)) hlog)
          rcases Prog.ends_bind hon with ⟨e, rfl, hr⟩ | ⟨restarted, v, z, rfl, hr, hend⟩
          · obtain ⟨hun, hl⟩ := restart_outcome hr
            exact .raised hun hl
          · obtain ⟨hun, hr⟩ := restart_outcome hr
            cases restarted with
            | failed n =>
              obtain ⟨rfl, rfl⟩ := Prog.ends_pure hend
              obtain ⟨rfl, hrep⟩ := hr
              rw [List.append_nil]
              exact .reported hun hrep
            | target host => exact (secondDispatch_outcome hend).after hun

end

/-! ## In every run -/

section
variable {t : Nat} {x : Choice} {s s' : Factory}

/-- Lines stay in the error log. -/
theorem exec_error_log {o : Op} {r : Except Exn o.Ans} (h : exec t o x s = some (r, s')) :
    s.error_log <+: s'.error_log := by
  cases o with
  | logServerError msg lvl p =>
    cases x <;> simp only [exec, Option.some.injEq, Prod.mk.injEq, reduceCtorEq] at h
    · repeat' split at h
      all_goals obtain ⟨-, rfl⟩ := Prod.mk.inj (Option.some.inj h)
      · exact List.prefix_rfl
      · exact List.prefix_rfl
      · exact List.prefix_append _ _
    · rw [h.2]
  | _ =>
    have hstays : s'.error_log = s.error_log := by
      cases x <;> simp only [exec, Option.some.injEq, Prod.mk.injEq, reduceCtorEq] at h
      all_goals (repeat' split at h) <;> first | (obtain ⟨-, rfl⟩ := h; rfl) | cases h
    rw [hstays]

theorem exec_logged {msg : WString} {lvl : Int} {p : ServerPtr} {u : Unit}
    (h : exec t (.logServerError msg lvl p) x s = some (.ok u, s')) : (msg, lvl, p) ∈ s'.error_log := by
  cases x <;> simp only [exec, Option.some.injEq, Prod.mk.injEq, reduceCtorEq, false_and] at h
  repeat' split at h
  all_goals cases h
  exact List.mem_append_right _ (List.mem_singleton.mpr rfl)

end

/-- What a call has logged is in the error log. -/
def loggedTracks : Tracks exec factoryTasks where
  inv _ _ _ tr _ s := ∀ msg lvl p s', (⟨.logServerError msg lvl p, .ok (), s'⟩ : FDone) ∈ tr → (msg, lvl, p) ∈ s.error_log
  start _ _ _ := nofun
  own {t call s₀ tr o k s} h x r s' hx msg lvl p s'' hm := by
    rcases List.mem_append.mp hm with hm | hm
    · exact (exec_error_log hx).subset (h msg lvl p s'' hm)
    · cases List.mem_singleton.mp hm
      exact exec_logged hx
  other_start h t' call' _ msg lvl p s' hm := by
    have hstays : ∀ s, (enter t' call' s).error_log = s.error_log := fun s => by cases call' <;> rfl
    change (msg, lvl, p) ∈ (enter t' call' _).error_log
    rw [hstays]
    exact h msg lvl p s' hm
  other_step h _ _ _ _ _ _ hx msg lvl p s' hm := (exec_error_log hx).subset (h msg lvl p s' hm)

/-- In every run, however a request has ended: a host answered, with the
request's last operation, and its status is returned; or the request is answered
with 500, and an error line for it is in the log; or an exception left the
function, raised by the last operation, and no host has answered. -/
theorem answered_or_reported (H : History) {t : Nat} {k : Int} {rr : Nat} {s₀ : Factory} {r : Except Exn Int}
    (hcall : H.calling t = some (.handleHostRequest k rr, s₀)) (hend : H.last.pool t = some (.ended r)) :
    Outcome k rr (H.record t) r ∧ (Unanswered (H.record t) → ∀ n, r = .ok n →
      n = 500 ∧ ∃ msg, (msg, APLOG_ERR, .ofRequest rr) ∈ H.last.shared.error_log) := by
  have houtcome : Outcome k rr (H.record t) r := handleHostRequest_outcome (H.ended hcall hend).1
  obtain ⟨call, s', hκ, hlogged⟩ := loggedTracks.run (inv_quiet _) H.ran t _ hend
  cases hκ.symm.trans hcall
  refine ⟨houtcome, fun hun n hn => ?_⟩
  generalize htr : H.record t = tr at houtcome hun
  rw [← History.record, htr] at hlogged
  cases houtcome with
  | answered hpre => cases hun _ (List.mem_append_right _ (List.mem_singleton.mpr rfl)) rfl
  | reported _ hr =>
    cases hn
    obtain ⟨msg, s, hm⟩ := hr
    exact ⟨rfl, msg, hlogged msg _ _ s hm⟩
  | raised => cases hn

def unexpectedActions : List FAction :=
  List.flatten [createdActions, [.start 1 (.handleHostRequest 0 7), .step 1 .ok,
    .step 1 (.raise true (.other (wlit "unexpected"))), .step 1 .ok, .step 1 .ok]]

/-- The host raises after it began to process the request. -/
def unexpectedRun : History where
  actions := unexpectedActions
  last := (run exec factoryTasks (.quiet newFactory) unexpectedActions).get (by decide +kernel)
  ran := by rw [Option.some_get]

theorem answered_or_reported_unexpected :
    ∃ msg, (msg, APLOG_ERR, .ofRequest 7) ∈ unexpectedRun.last.shared.error_log := by
  obtain ⟨s₀, hcall⟩ : ∃ s₀, unexpectedRun.calling 1 = some (.handleHostRequest 0 7, s₀) := ⟨_, rfl⟩
  have hend : unexpectedRun.last.pool 1 = some (.ended (.ok 500)) := rfl
  have hun : Unanswered (unexpectedRun.record 1) := by
    unfold Unanswered
    decide +kernel
  exact ((answered_or_reported unexpectedRun hcall hend).2 hun 500 rfl).2

end ModAspNet.L4.HostFactory
