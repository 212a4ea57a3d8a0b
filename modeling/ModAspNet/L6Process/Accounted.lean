import ModAspNet.L4Factory.Outcome
import ModAspNet.L4Factory.Tenure
import ModAspNet.L6Process.Server

/-!
# What httpd gets for a request

`asp_net_handler` turns a request down itself, or calls the factory and returns
the status of that call; what the call raises arrives as a `_com_error`, an
`HRESULT` or anything else, and each `catch` clause logs and returns 500.

* `aspNetHandler_answers`: the ways the handler can end.
* `request_accounted`: in every run of a process that was configured, httpd gets
  the status of one host of the right mount, or a status with an error line that
  tells of it.
-/
namespace ModAspNet.L6.Passes

open ModAspNet.L1.CStr ModAspNet.L1.Managed ModAspNet.L2.DirConf ModAspNet.L2.Mount ModAspNet.L3.Handler
open ModAspNet.L4.HostFactory (HostId FDone Op Exn Call Factory FConfig FAction DispatchSite exec factoryTasks nextOp
  enter Unanswered handleHostRequest_outcome loggedTracks exec_writes enter_unwritten APLOG_ERR)
open ModAspNet.L3.Coverage (siteDirconf siteEnv)
open ModAspNet.L6.OneText (utf8Interop)
open ModAspNet.Core

/-! ## The native side -/

/-- How the end of `HandleHostRequest` arrives at the handler. -/
inductive Crosses : Except Exn Int → Managed → Prop
  | status (n) : Crosses (.ok n) (.status n)
  | comError (e desc) : Crosses (.error e) (.comError desc)
  | hresult (e) : Crosses (.error e) .hresult
  | other (e) : Crosses (.error e) .other

/-- The handler's own answers, with the reason in the log. -/
structure TurnedDown (out : Outcome) : Prop where
  status : out.status = HTTP_FORBIDDEN ∨ out.status = HTTP_NOT_FOUND ∨ out.status = HTTP_INTERNAL_SERVER_ERROR
  logged : out.log ≠ []
  alone : out.dispatched = none

/-- The call of the factory returned, or was caught. -/
inductive Called (env : Env) (k : Int) : Outcome → Prop
  | returned {n} (h : env.managed k = .status n) : Called env k ⟨n, [], some k⟩
  | caught {log} (h : ∀ n, env.managed k ≠ .status n) (hlog : log ≠ []) :
      Called env k ⟨HTTP_INTERNAL_SERVER_ERROR, log, some k⟩

section
variable {d : Dirconf} {g : HostTable} {order : List Alias} {env : Env} {r : RequestRec}

theorem fileTypeGate_refuses {uri : CString} {f : Refusal} (h : fileTypeGate d r uri = some f) :
    TurnedDown ⟨f.status, f.log, none⟩ := by
  unfold fileTypeGate at h
  split at h
  · split at h <;> cases h
    exact ⟨.inl rfl, List.cons_ne_nil _ _, rfl⟩
  · split at h <;> cases h
    exact ⟨.inl rfl, List.cons_ne_nil _ _, rfl⟩
  · split at h <;> cases h
    exact ⟨.inr (.inl rfl), List.cons_ne_nil _ _, rfl⟩
  · cases h
    exact ⟨.inr (.inl rfl), List.cons_ne_nil _ _, rfl⟩

theorem pathInfoGate_refuses {f : Refusal} (h : pathInfoGate r = some f) : TurnedDown ⟨f.status, f.log, none⟩ := by
  unfold pathInfoGate at h
  split at h
  · cases h
  · split at h <;> cases h
    exact ⟨.inr (.inl rfl), List.cons_ne_nil _ _, rfl⟩

theorem dispatch_answers (uri : CString) (host : HostPtr) :
    TurnedDown (dispatch g env r uri host) ∨ Called env (hostKey g host) (dispatch g env r uri host) := by
  unfold dispatch
  generalize (if env.coInitializeEx = RPC_E_CHANGED_MODE then env.coInitialize else env.coInitializeEx) = hr
  dsimp only
  split
  · exact .inl ⟨.inr (.inr rfl), List.cons_ne_nil _ _, rfl⟩
  right
  cases hm : env.managed (hostKey g host) with
  | status n => exact .returned hm
  | comError desc =>
    have hnot : ∀ n, env.managed (hostKey g host) ≠ .status n := fun n hn => by rw [hm] at hn; cases hn
    cases desc <;> exact .caught hnot (List.cons_ne_nil _ _)
  | hresult => exact .caught (fun n hn => by rw [hm] at hn; cases hn) (List.cons_ne_nil _ _)
  | other => exact .caught (fun n hn => by rw [hm] at hn; cases hn) (List.cons_ne_nil _ _)

/-- The handler declines what is not for it, turns the request down with a line in
the log, or calls the factory. -/
theorem aspNetHandler_answers : (r.handler.map CString.val ≠ some (lit "asp.net") ∧
      aspNetHandler d g order env r = ⟨DECLINED, [], none⟩) ∨
    TurnedDown (aspNetHandler d g order env r) ∨ ∃ k, Called env k (aspNetHandler d g order env r) := by
  unfold aspNetHandler
  split
  · rename_i hname
    exact .inl ⟨hname, rfl⟩
  right
  split
  · exact .inl ⟨.inl rfl, List.cons_ne_nil _ _, rfl⟩
  rename_i uri huri
  split
  · exact .inl ⟨.inl rfl, List.cons_ne_nil _ _, rfl⟩
  split
  · rename_i f hf
    exact .inl (fileTypeGate_refuses hf)
  unfold afterGate
  split
  · rename_i f hf
    exact .inl (pathInfoGate_refuses hf)
  split
  · exact .inl ⟨.inr (.inr rfl), List.cons_ne_nil _ _, rfl⟩
  · rename_i host hsel
    exact (dispatch_answers uri host).imp_right fun h => ⟨_, h⟩

theorem Called.dispatched {k : Int} {out : Outcome} (h : Called env k out) : out.dispatched = some k := by
  cases h <;> rfl

/-- What the call of the factory raised was caught. -/
theorem Called.crosses {k : Int} {out : Outcome} (h : Called env k out) {res : Except Exn Int}
    (hcross : Crosses res (env.managed k)) :
    (∃ n, res = .ok n ∧ out.status = n ∧ out.log = []) ∨
    ∃ e, res = .error e ∧ out.status = HTTP_INTERNAL_SERVER_ERROR ∧ out.log ≠ [] := by
  cases h with
  | @returned n hm =>
    rw [hm] at hcross
    cases hcross
    exact .inl ⟨n, rfl, rfl, rfl⟩
  | @caught log hnot hlog =>
    cases res with
    | ok n =>
      cases hm : env.managed k with
      | status m => exact absurd hm (hnot m)
      | _ => rw [hm] at hcross; cases hcross
    | error e => exact .inr ⟨e, rfl, rfl, hlog⟩

end

/-! ## In every run -/

section
variable {c : Interop} (S : Server c)

/-- What each thread has performed in the call it is in. -/
def Server.record : Records Op Op.Ans Exn Factory :=
  Core.record exec factoryTasks (.quiet S.process.lists) (fun _ => []) S.actions

/-- The process at an earlier moment. -/
def Server.upto {as bs : List FAction} (h : S.actions = as ++ bs) (c₁ : FConfig)
    (hr : Core.run exec factoryTasks (.quiet S.process.lists) as = some c₁) : Server c :=
  { S with
    actions := as
    passed := fun a ha => S.passed a (h ▸ List.mem_append_left bs ha)
    now := c₁
    ran := hr }

/-- What has happened when something is performed has happened now. -/
theorem Server.chained (t : Nat) :
    Chained exec (fun _ => True) (fun s s' => s.events <+: s'.events) (S.record t) S.now.shared := by
  refine (record_chained ?_ ?_ ?_ trivial (fun _ => ⟨fun _ hd => absurd hd List.not_mem_nil, .nil⟩) S.ran).2 t
  · exact fun _ _ _ => List.IsPrefix.trans
  · rintro _ _ _ s _ s' - hx
    rcases exec_writes hx with ⟨k, v, v₀, -, -, rfl⟩ | ⟨hu, -⟩
    · exact ⟨trivial, _, rfl⟩
    · exact ⟨trivial, hu.isPrefix⟩
  · exact fun t call s _ => ⟨trivial, (enter_unwritten t call s).1.isPrefix⟩

/-- A request was dispatched to hosts made for its key. -/
theorem Server.dispatched_made {t : Nat} {d : FDone} (hd : d ∈ S.record t) {site : DispatchSite}
    {k : Int} {h : HostId} {rr : Nat} (hop : d.op = .handleRequest site k h rr) : .created k h ∈ S.now.shared.events := by
  rcases record_performed S.ran hd with hno | ⟨as, bs, c₁, rest, has, hrun, hpool, hs⟩
  · cases hno
  · have hnext : nextOp c₁ t = some (.handleRequest site k h rr) := by
      rw [← hop]
      simp only [nextOp, hpool]
    have hmade := (S.upto has c₁ hrun).invoked.2 t site k h rr hnext
    rw [show (S.upto has c₁ hrun).now = c₁ from rfl, hs] at hmade
    exact ((S.chained t).did d hd).2.1.subset hmade

/-- A host of the mount has answered, last of all, and nothing was logged. -/
structure AnsweredBy (m : MountRecord) (k : Int) (rr : Nat) (tr : List FDone) (out : Outcome) : Prop where
  last : ∃ pre site h s, tr = pre ++ [⟨.handleRequest site k h rr, .ok out.status, s⟩] ∧ Unanswered pre ∧ HostOf S m k h
  silent : out.log = []

/-- No host has answered: httpd gets 500, and one of the two logs tells of it. -/
structure ReportedAs500 (rr : Nat) (tr : List FDone) (out : Outcome) : Prop where
  unanswered : Unanswered tr
  status : out.status = HTTP_INTERNAL_SERVER_ERROR
  told : (∃ msg, (msg, APLOG_ERR, .ofRequest rr) ∈ S.now.shared.error_log) ∨ out.log ≠ []

/-- Every request httpd hands over, in every life of a process and every run of
requests, restarts and finalizers: it is declined as not for this handler, or
turned down with a line in the log, or the factory is called under the key of the
last mount of a path that begins the URI. And when that call has ended, httpd gets
the status of one host made with the paths of that mount and configured for no
others, or 500 with an error line that tells of it. -/
theorem request_accounted {server : Nat} {s : SrvConf} (hs : S.process.servers[server]? = some s) {order : List Alias}
    (hperm : List.Perm order (s.aliases.map Prod.snd)) (d : Dirconf) (env : Env) (r : RequestRec) :
    (r.handler.map CString.val ≠ some (lit "asp.net") ∧
      aspNetHandler d S.process.table order env r = ⟨DECLINED, [], none⟩) ∨
    TurnedDown (aspNetHandler d S.process.table order env r) ∨
    ∃ uri m k, r.uri = some uri ∧ lastMount S.process server m.uri = some m ∧ fold m.uri.val <+: fold uri.val ∧
      (aspNetHandler d S.process.table order env r).dispatched = some k ∧
      ∀ t rr s₀ res, S.calling t = some (.handleHostRequest k rr, s₀) → S.now.pool t = some (.ended res) →
        Crosses res (env.managed k) →
          AnsweredBy S m k rr (S.record t) (aspNetHandler d S.process.table order env r) ∨
          ReportedAs500 S rr (S.record t) (aspNetHandler d S.process.table order env r) := by
  refine aspNetHandler_answers.imp_right (Or.imp_right ?_)
  rintro ⟨k, hcalled⟩
  have hk := hcalled.dispatched
  obtain ⟨uri, m, huri, hlast, hbegins, -, hpaths⟩ := S.mounted ⟨s, order, d, env, hs, hperm, hk⟩
  refine ⟨uri, m, k, huri, hlast, hbegins, hk, fun t rr s₀ res hcall hend hcross => ?_⟩
  have hnone : ∀ K : Tracks exec factoryTasks, K.Inv (fun _ => none) (fun _ => []) (.quiet S.process.lists) :=
    fun _ => nofun
  obtain ⟨call, s₁, hκ, hcomes⟩ := (comesTracks exec factoryTasks).run (hnone _) S.ran t _ hend
  cases hκ.symm.trans hcall
  obtain ⟨call, s₁, hκ, hlogged⟩ := loggedTracks.run (hnone _) S.ran t _ hend
  cases hκ.symm.trans hcall
  have houtcome := handleHostRequest_outcome hcomes
  have hmade : ∀ d ∈ S.record t, ∀ site h, d.op = .handleRequest site k h rr → .created k h ∈ S.now.shared.events :=
    fun _ hd _ _ hop => S.dispatched_made hd hop
  change L4.HostFactory.Outcome k rr (S.record t) res at houtcome
  change ∀ msg lvl p s', (⟨.logServerError msg lvl p, .ok (), s'⟩ : FDone) ∈ S.record t →
    (msg, lvl, p) ∈ S.now.shared.error_log at hlogged
  generalize S.record t = tr at houtcome hmade hlogged ⊢
  generalize aspNetHandler d S.process.table order env r = out at hcalled ⊢
  rcases hcalled.crosses hcross with ⟨n, rfl, rfl, hsilent⟩ | ⟨e, rfl, hstatus, hlog⟩
  · generalize hn : out.status = n at houtcome
    cases houtcome with
    | @answered pre site h n s' hpre =>
      refine .inl ⟨⟨pre, site, h, s', by rw [hn], hpre, ?_⟩, hsilent⟩
      have hcreated := hmade _ (List.mem_append_right _ (List.mem_singleton.mpr rfl)) site h rfl
      exact S.hostOf hpaths.1 hpaths.2 hcreated
    | reported hun htold =>
      obtain ⟨msg, s', hm⟩ := htold
      exact .inr ⟨hun, hn, .inl ⟨msg, hlogged msg _ _ s' hm⟩⟩
  · cases houtcome with
    | raised hun => exact .inr ⟨hun, hstatus, .inr hlog⟩

end

/-! ## One request -/

def answeredActions : List FAction := [.start 1 (.handleHostRequest 0 7), .step 1 .ok, .step 1 (.status true 200)]

/-- The application's host has answered. -/
def answeredServer : Server utf8Interop :=
  { appServer with
    actions := answeredActions
    passed := by
      intro a ha
      rcases List.mem_cons.mp ha with rfl | ha
      · exact ⟨0, appRequest, appRequest_dispatched⟩
      · rcases List.mem_cons.mp ha with rfl | ha
        · trivial
        · cases List.mem_singleton.mp ha
          trivial
    now := (Core.run exec factoryTasks (.quiet appProcess.lists) answeredActions).get (by decide +kernel)
    ran := (Option.some_get _).symm }

theorem answeredServer_main : (answeredServer.process.servers[0]?).isSome = true := by decide +kernel

def answeringServer : SrvConf := (answeredServer.process.servers[0]?).get answeredServer_main

theorem request_accounted_app : ∃ m, lastMount answeredServer.process 0 m.uri = some m ∧
    AnsweredBy answeredServer m 0 7 (answeredServer.record 1)
      (aspNetHandler siteDirconf answeredServer.process.table (answeringServer.aliases.map Prod.snd) siteEnv appRequest) := by
  have hk : (aspNetHandler siteDirconf answeredServer.process.table (answeringServer.aliases.map Prod.snd) siteEnv
    appRequest).dispatched = some 0 := by decide +kernel
  have hstatus : (aspNetHandler siteDirconf answeredServer.process.table (answeringServer.aliases.map Prod.snd) siteEnv
    appRequest).status = 200 := by decide +kernel
  rcases request_accounted answeredServer (Option.some_get answeredServer_main).symm
    (.refl (answeringServer.aliases.map Prod.snd)) siteDirconf siteEnv appRequest with ⟨-, hdeclined⟩ | hdown | hcalled
  · rw [hdeclined] at hk
    cases hk
  · rw [hdown.alone] at hk
    cases hk
  · obtain ⟨uri, m, k, -, hlast, -, hk', hanswer⟩ := hcalled
    cases hk.symm.trans hk'
    obtain ⟨s₀, hcall⟩ : ∃ s₀, answeredServer.calling 1 = some (.handleHostRequest 0 7, s₀) := ⟨_, rfl⟩
    rcases hanswer 1 7 s₀ (.ok 200) hcall rfl (.status 200) with hby | hreport
    · exact ⟨m, hlast, hby⟩
    · rw [hreport.status] at hstatus
      cases hstatus

end ModAspNet.L6.Passes
