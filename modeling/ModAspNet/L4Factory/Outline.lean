import ModAspNet.L4Factory.HostFactory

/-!
# Outlines of the factory's functions

The control flow of `ConnectHost`, `HandleHostRequest` and `HostFinalized`: at
each point the operation performed and where each of its outcomes leads,
exceptions included. Reading a path for a text, building it and logging it
does not move; such a text may raise at any point that has one.

* `connectHost_outline`, `handleHostRequest_outline`, `hostFinalized_outline`:
  a function meets whatever annotation of its points is kept by its operations,
  under interference. Every result about the factory's runs is proved from one.
-/
namespace ModAspNet.L4.HostFactory

open ModAspNet.L1.Managed
open ModAspNet.Core

/-! ## `ConnectHost` -/

/-- The points of `ConnectHost`. -/
inductive ConnectPoint where
  | start
  | made (v : Option HostId)
  | stored (h : HostId)
  | located (h : HostId) (uri : WString)
  | placed (h : HostId) (uri dir : WString)
  /-- null was stored -/
  | unmade
  /-- in the `catch` clause -/
  | raised
  | connected
  | unconnected
  /-- an exception in the `catch` clause left the function -/
  | escaped

namespace ConnectPoint

def afterCreate : Except Exn (Option HostId) → ConnectPoint
  | .ok v => .made v
  | .error _ => .raised

def afterStore (v : Option HostId) : Except Exn Unit → ConnectPoint
  | .ok _ => match v with
    | some h => .stored h
    | none => .unmade
  | .error _ => .raised

def afterURI (h : HostId) : Except Exn WString → ConnectPoint
  | .ok uri => .located h uri
  | .error _ => .raised

def afterDir (h : HostId) (uri : WString) : Except Exn WString → ConnectPoint
  | .ok dir => .placed h uri dir
  | .error _ => .raised

def afterConfigure : Except Exn Unit → ConnectPoint
  | .ok _ => .connected
  | .error _ => .raised

def afterClear : Except Exn Unit → ConnectPoint
  | .ok _ => .unconnected
  | .error _ => .escaped

/-- By what `ConnectHost` returns. -/
def after : Except Exn Bool → ConnectPoint
  | .ok true => .connected
  | .ok false => .unconnected
  | .error _ => .escaped

inductive Edge (k : Int) : ConnectPoint → (o : Op) → (Except Exn o.Ans → ConnectPoint) → Prop
  | create (uri dir) : Edge k .start (.createApplicationHost k uri dir) afterCreate
  | store (v) : Edge k (.made v) (.hostObjSet k v) (afterStore v)
  | uri (h) : Edge k (.stored h) (.hostURIGet k) (afterURI h)
  | dir (h uri) : Edge k (.located h uri) (.hostDirGet k) (afterDir h uri)
  | configure (h uri dir) : Edge k (.placed h uri dir) (.configure k h uri dir) afterConfigure
  | clear : Edge k .raised (.hostObjSet k none) afterClear

inductive Silent : ConnectPoint → ConnectPoint → Prop
  | start_raised : Silent .start .raised
  | unmade_raised : Silent .unmade .raised
  | unmade_unconnected : Silent .unmade .unconnected
  | raised_escaped : Silent .raised .escaped

end ConnectPoint

def connectFlow (k : Int) : Flow Op Op.Ans Exn ConnectPoint := ⟨ConnectPoint.Edge k, ConnectPoint.Silent⟩

/-- The flow after `CreateApplicationHost`. -/
def madeFlow (k : Int) : Flow Op Op.Ans Exn ConnectPoint :=
  ⟨fun p o next => ConnectPoint.Edge k p o next ∧ p ≠ .start, ConnectPoint.Silent⟩

/-- `ConnectHost` after `CreateApplicationHost`. -/
def connectMade (k : Int) (newHost : Option HostId) : FProg Bool := do
  hostObjSet k newHost
  match newHost with
  | some host => do
    let uri ← hostURIGet k
    let dir ← hostDirGet k
    atom (.configure k host uri dir)
    pure true
  | none => do
    let s ← hostSvrGet k
    logServerError (wlit ("mod_aspdotnet: CreateApplicationHost returned NULL, " ++
      "perhaps the AspNetMount paths were invalid")) APLOG_ERR (.record s)
    pure false

/-- The `catch` clause of `ConnectHost`. -/
def connectRaised (k : Int) (e : Exn) : FProg Bool := do
  let s ← hostSvrGet k
  logServerError (wlit "mod_aspdotnet: CreateApplicationHost failed, Exception follows") APLOG_ERR (.record s)
  logServerError e.toString APLOG_ERR (.record s)
  hostObjSet k none
  pure false

theorem connectHost_eq (k : Int) : connectHost k = Prog.tryCatch (hostURIGet k >>= fun uri => hostDirGet k >>= fun dir =>
    atom (.createApplicationHost k uri dir) >>= connectMade k) (connectRaised k) := by
  refine congrArg (Prog.tryCatch · _) (congrArg (_ >>= ·) (funext fun uri => congrArg (_ >>= ·) (funext fun dir =>
    congrArg (_ >>= ·) (funext fun v => ?_))))
  cases v <;> rfl

/-- To read a server and to log. -/
def Op.isReport : Op → Bool
  | .hostSvrGet _ => true
  | .logServerError _ _ _ => true
  | _ => false

section
variable {A : Assumption Op Call Choice Factory} {S : Spec exec A} {t : Nat} {k : Int}

theorem LogBlind.report (hB : LogBlind S) {π : Type} {F : Flow Op Op.Ans Exn π} (O : S.Outline t F) (p : π) (o : Op)
    (ho : o.isReport = true) : S.Triple t (O.knows p) (atom o) fun _ => O.knows p :=
  hB.triple (O.stable p) (atom_text o (by cases o <;> simp_all [Op.isReport, Op.isText]))

section
variable (O : S.Outline t (madeFlow k))
  (hR : ∀ p o, o.isReport = true → S.Triple t (O.knows p) (atom o) fun _ => O.knows p)
include hR

theorem connectMade_outline (v : Option HostId) :
    S.Triple t (O.knows (.made v)) (connectMade k v) fun r s => match r with
      | .ok b => O.knows (.after (.ok b)) s
      | .error _ => O.knows .raised s := by
  refine O.bind ⟨.store v, nofun⟩ (fun _ => ?_) fun _ _ _ h => h
  cases v with
  | some host =>
    refine O.bind ⟨.uri host, nofun⟩ (fun uri => ?_) fun _ _ _ h => h
    refine O.bind ⟨.dir host uri, nofun⟩ (fun dir => ?_) fun _ _ _ h => h
    refine O.bind ⟨.configure host uri dir, nofun⟩ (fun _ => ?_) fun _ _ _ h => h
    exact O.skip .connected true
  | none =>
    refine .seq (hR .unmade (.hostSvrGet k) rfl) (fun p => ?_) fun _ => O.silent .unmade_raised
    refine .seq (hR .unmade (.logServerError _ _ _) rfl) (fun _ => ?_) fun _ => O.silent .unmade_raised
    exact O.skip_silent .unmade_unconnected false

theorem connectRaised_outline (e : Exn) :
    S.Triple t (O.knows .raised) (connectRaised k e) fun r => O.knows (.after r) := by
  refine .seq (hR .raised (.hostSvrGet k) rfl) (fun p => ?_) fun _ => O.silent .raised_escaped
  refine .seq (hR .raised (.logServerError _ _ _) rfl) (fun _ => ?_) fun _ => O.silent .raised_escaped
  refine .seq (hR .raised (.logServerError _ _ _) rfl) (fun _ => ?_) fun _ => O.silent .raised_escaped
  refine O.bind ⟨.clear, nofun⟩ (fun _ => ?_) fun _ _ _ h => h
  exact O.skip .unconnected false

end

theorem connectHost_outline (O : S.Outline t (connectFlow k)) (hB : LogBlind S) :
    S.Triple t (O.knows .start) (connectHost k) fun r => O.knows (.after r) := by
  have htext : ∀ (o : Op), o.isText = true → S.Triple t (O.knows .start) (atom o) fun _ => O.knows .start :=
    fun o ho => hB.triple (O.stable .start) (atom_text o ho)
  rw [connectHost_eq]
  refine .tryCatch (H := fun _ => O.knows .raised) (fun a => O.stable _) ?_ fun e =>
    connectRaised_outline (O.restrict (fun h => h.1) fun h => h) (hB.report _) e
  refine .seq (htext (.hostURIGet k) rfl) (fun uri => ?_) fun _ => O.silent .start_raised
  refine .seq (htext (.hostDirGet k) rfl) (fun dir => ?_) fun _ => O.silent .start_raised
  refine O.bind (.create uri dir) (fun v => ?_) fun _ _ _ h => h
  refine (connectMade_outline (O.restrict (fun h => h.1) fun h => h) (hB.report _) v).weaken fun r s _ hs => ?_
  cases r <;> exact hs

end

/-! ## `HandleHostRequest` -/

/-- The points of `HandleHostRequest`; `obj` is what the request came with. -/
inductive RequestPoint where
  | start
  | came (h : HostId)
  /-- to the restart -/
  | fell (obj : Option HostId)
  /-- in the section under the monitor -/
  | held (obj : Option HostId)
  /-- `tryobj == obj` -/
  | same (obj : Option HostId)
  | connecting
  | connected
  | unconnected
  | chosen (h : HostId)
  /-- the section was left with a failure -/
  | left
  /-- in the `catch` clause of the section -/
  | broken
  | onward (h : HostId)
  | done

namespace RequestPoint

def afterEntry : Except Exn (Option HostId) → RequestPoint
  | .ok (some h) => .came h
  | .ok none => .fell none
  | .error _ => .done

def afterFirst (h : HostId) : Except Exn Int → RequestPoint
  | .ok _ => .done
  | .error e => if e.hostLost then .fell (some h) else .done

def afterEnter (obj : Option HostId) : Except Exn Unit → RequestPoint
  | .ok _ => .held obj
  | .error _ => .done

/-- With `obj` after the test of `tryobj`, which leaves it what it was. -/
def afterRelease : Option HostId → RequestPoint
  | some h => .chosen h
  | none => .connecting

def afterTry (obj : Option HostId) : Except Exn (Option HostId) → RequestPoint
  | .ok v => if v = obj then .same obj else afterRelease obj
  | .error _ => .broken

def afterConnect : Except Exn Bool → RequestPoint
  | .ok true => .connected
  | .ok false => .unconnected
  | .error _ => .broken

def afterRestarted : Except Exn (Option HostId) → RequestPoint
  | .ok (some h) => .chosen h
  | .ok none => .unconnected
  | .error _ => .broken

def afterLeave (p : RequestPoint) : Except Exn Unit → RequestPoint
  | .ok _ => p
  | .error _ => .broken

inductive Edge (k : Int) (rr : Nat) : RequestPoint → (o : Op) → (Except Exn o.Ans → RequestPoint) → Prop
  | entry : Edge k rr .start (.hostObjGet k .entry) afterEntry
  | first (h) : Edge k rr (.came h) (.handleRequest .first k h rr) (afterFirst h)
  | enter (obj) : Edge k rr (.fell obj) .monitorEnter (afterEnter obj)
  | tryobj (obj) : Edge k rr (.held obj) (.hostObjGet k (.tryobj obj)) (afterTry obj)
  | release (obj) : Edge k rr (.same obj) (.hostObjSet k none) fun _ => afterRelease obj
  | restarted : Edge k rr .connected (.hostObjGet k .restarted) afterRestarted
  | fail : Edge k rr .unconnected (.monitorExit none) (afterLeave .left)
  | leave (h) : Edge k rr (.chosen h) (.monitorExit (some k)) (afterLeave (.onward h))
  | catch : Edge k rr .broken (.monitorExit none) fun _ => .done
  | second (h) : Edge k rr (.onward h) (.handleRequest .second k h rr) fun _ => .done

inductive Silent : RequestPoint → RequestPoint → Prop
  | fell_done (obj) : Silent (.fell obj) .done
  | left_done : Silent .left .done
  | left_broken : Silent .left .broken

end RequestPoint

def requestFlow (k : Int) (rr : Nat) : Flow Op Op.Ans Exn RequestPoint := ⟨RequestPoint.Edge k rr, RequestPoint.Silent⟩

section
variable {A : Assumption Op Call Choice Factory} {S : Spec exec A} {t : Nat} {k : Int} {rr : Nat}
  (O : S.Outline t (requestFlow k rr))

/-- Where the first dispatch leads. -/
def RequestPoint.afterFell (obj : Option HostId) : Except Exn (Option Int) → RequestPoint
  | .ok none => .fell obj
  | _ => .done

/-- Where the section under the monitor leads. -/
def RequestPoint.afterLocked : Except Exn Restart → RequestPoint
  | .ok (.target h) => .onward h
  | .ok (.failed _) => .done
  | .error _ => .broken

/-- Where the restart leads. -/
def RequestPoint.afterRestart : Except Exn Restart → RequestPoint
  | .ok (.target h) => .onward h
  | _ => .done

theorem firstDispatch_outline (hB : LogBlind S) (obj : Option HostId) :
    S.Triple t (O.knows (.afterEntry (.ok obj))) (firstDispatch k obj rr) fun r => O.knows (.afterFell obj r) := by
  cases obj with
  | none => exact O.skip (.fell none) (none : Option Int)
  | some h =>
    refine .tryCatch (H := fun e => O.knows (.afterFirst h (.error e))) (fun a => O.stable _) ?_ fun e => ?_
    · refine O.bind (.first h) (fun n => ?_) fun _ _ _ hs => hs
      exact O.skip .done (some n)
    · have hlost : ∀ (what : String) (lvl : Int), S.Triple t (O.knows (.fell (some h)))
          (logException what e lvl (.ofRequest rr) >>= fun _ => pure (none : Option Int)) fun r => O.knows (.afterFell (some h) r) := by
        intro what lvl
        refine .seq (hB.triple (O.stable _) (logException_text what e lvl _)) (fun _ => ?_)
          fun _ => O.silent (.fell_done _)
        exact O.skip (.fell (some h)) (none : Option Int)
      have hother : ∀ (what : String) (lvl : Int), S.Triple t (O.knows .done)
          (logException what e lvl (.ofRequest rr) >>= fun _ => pure (some 500))
          fun r => O.knows (.afterFell (some h) r) := by
        intro what lvl
        refine .seq (hB.triple (O.stable _) (logException_text what e lvl _)) (fun _ => ?_) fun _ _ _ hs => hs
        exact O.skip .done (some 500)
      cases e with
      | RemotingException text => exact hlost _ _
      | AppDomainUnloadedException text => exact hlost _ _
      | _ => exact hother _ _

theorem restartLocked_outline (hB : LogBlind S)
    (hc : S.Triple t (O.knows .connecting) (connectHost k) fun r => O.knows (.afterConnect r)) (obj : Option HostId) : S.Triple t (O.knows (.held obj)) (restartLocked k obj rr) fun r => O.knows (.afterLocked r) := by
  have hfail : ∀ (what : String), S.Triple t (O.knows .unconnected)
      (monitorExit none >>= fun _ => logMapping what k APLOG_ERR (.ofRequest rr) >>= fun _ => pure (Restart.failed 500))
      fun r => O.knows (.afterLocked r) := by
    intro what
    refine O.bind .fail (fun _ => ?_) fun _ _ _ hs => hs
    refine .seq (hB.triple (O.stable .left) (logMapping_text what k _ _)) (fun _ => ?_) fun _ => O.silent .left_broken
    exact O.skip_silent .left_done (Restart.failed 500)
  have htarget : ∀ h, S.Triple t (O.knows (.chosen h)) (monitorExit (some k) >>= fun _ => pure (Restart.target h))
      fun r => O.knows (.afterLocked r) := by
    intro h
    refine O.bind (.leave h) (fun _ => ?_) fun _ _ _ hs => hs
    exact O.skip (.onward h) (Restart.target h)
  unfold restartLocked
  refine O.bind (.tryobj obj) (fun tryobj => ?_) fun _ _ _ hs => hs
  -- whichever way the test goes, `obj` is assigned what it was
  refine .bind (R := fun obj' s => obj' = obj ∧ O.knows (.afterRelease obj) s) ?_ fun obj' => ?_
  · unfold releaseStale
    split
    · rename_i he
      refine .bind (R := fun _ => O.knows (.afterRelease obj)) ?_ fun _ => ?_
      · refine .tryCatch (H := fun _ => O.knows (.afterRelease obj)) (fun _ => O.stable _) ?_ fun e => ?_
        · refine ((O.perform (.release obj)).strengthen fun s _ hs => ?_).weaken fun r s _ hs => ?_
          · simpa [RequestPoint.afterTry, he] using hs
          · cases r <;> exact hs
        · exact O.skip (.afterRelease obj) ()
      · exact .pure (O.stable _) fun s _ hs => ⟨he, hs⟩
    · rename_i hne
      refine .pure (O.stable _) fun s _ hs => ⟨rfl, ?_⟩
      simpa [RequestPoint.afterTry, hne] using hs
  · refine .of_fact (fun s _ h => h.1) fun heq => ?_
    subst heq
    refine .strengthen (P := O.knows (.afterRelease obj')) ?_ fun _ _ h => h.2
    cases obj' with
    | some h => exact htarget h
    | none =>
      refine .bind (R := fun b => O.knows (.afterConnect (.ok b))) (hc.weaken ?_) fun connected => ?_
      · intro r s _ hs
        cases r <;> exact hs
      · cases connected with
        | false => exact hfail _
        | true =>
          refine O.bind .restarted (fun obj => ?_) fun _ _ _ hs => hs
          cases obj with
          | none => exact hfail _
          | some h => exact htarget h

theorem restart_outline (hB : LogBlind S)
    (hc : S.Triple t (O.knows .connecting) (connectHost k) fun r => O.knows (.afterConnect r)) (obj : Option HostId) :
    S.Triple t (O.knows (.fell obj)) (restart k obj rr) fun r => O.knows (.afterRestart r) := by
  have htexts : ∀ e, S.Triple t (O.knows .done)
      (logMapping "Mount failure restarting host " k APLOG_ERR (.ofRequest rr) >>= fun _ =>
        logException "Mount failure exception restarting host; " e APLOG_ERR (.ofRequest rr) >>= fun _ =>
          pure (Restart.failed 500)) fun r => O.knows (.afterRestart r) := by
    intro e
    refine .seq (hB.triple (O.stable _) (logMapping_text _ _ _ _)) (fun _ => ?_) fun _ _ _ hs => hs
    refine .seq (hB.triple (O.stable _) (logException_text _ _ _ _)) (fun _ => ?_) fun _ _ _ hs => hs
    exact O.skip .done (Restart.failed 500)
  refine .bind (R := fun r => O.knows (.afterEnter obj r)) (.attempt (O.perform (.enter obj))) fun entered => ?_
  cases entered with
  | error e =>
    refine .bind (R := fun _ => O.knows .done) ?_ fun _ => htexts e
    exact O.skip .done ()
  | ok _ =>
    refine .tryCatch (H := fun _ => O.knows .broken) (fun a => O.stable _)
      ((restartLocked_outline O hB hc obj).weaken fun r s _ hs => ?_) fun e => ?_
    · cases r with
      | ok a => cases a <;> exact hs
      | error e => exact hs
    · refine .bind (R := fun _ => O.knows .done) ?_ fun _ => htexts e
      refine (O.perform .catch).weaken fun r s _ hs => ?_
      cases r <;> exact hs

theorem secondDispatch_outline (hB : LogBlind S) (h : HostId) :
    S.Triple t (O.knows (.onward h)) (secondDispatch k h rr) fun _ => O.knows .done := by
  refine .tryCatch (H := fun _ => O.knows .done) (fun _ => O.stable _) ?_ fun e => ?_
  · refine (O.perform (.second h)).weaken fun r s _ hs => ?_
    cases r <;> exact hs
  · refine .seq (hB.triple (O.stable _) (logException_text _ _ _ _)) (fun _ => ?_) fun _ _ _ hs => hs
    exact O.skip .done 500

theorem handleHostRequest_outline (hB : LogBlind S)
    (hc : S.Triple t (O.knows .connecting) (connectHost k) fun r => O.knows (.afterConnect r)) :
    S.Triple t (O.knows .start) (handleHostRequest k rr) fun _ => O.knows .done := by
  refine O.bind .entry (fun obj => ?_) fun _ _ _ hs => hs
  refine .bind (R := fun a => O.knows (.afterFell obj (.ok a))) ((firstDispatch_outline O hB obj).weaken ?_)
    fun first => ?_
  · intro r s _ hs
    cases r <;> exact hs
  · cases first with
    | some n => exact O.skip .done n
    | none =>
      refine .seq (hB.triple (O.stable (.fell obj)) (logMapping_text _ _ _ _)) (fun _ => ?_)
        fun _ => O.silent (.fell_done obj)
      refine .bind (R := fun a => O.knows (.afterRestart (.ok a))) ((restart_outline O hB hc obj).weaken ?_)
        fun restarted => ?_
      · intro r s _ hs
        cases r <;> exact hs
      · cases restarted with
        | failed n => exact O.skip .done n
        | target h => exact secondDispatch_outline O hB h

end

/-! ## `HostFinalized` -/

/-- The points of `HostFinalized`. An exception of the read or of the
comparison leaves the function inside the monitor. -/
inductive FinalizePoint where
  | start
  | held
  | read (v : Option HostId)
  | found
  | leaving
  | done

namespace FinalizePoint

def afterEnter : Except Exn Unit → FinalizePoint
  | .ok _ => .held
  | .error _ => .done

def afterRead : Except Exn (Option HostId) → FinalizePoint
  | .ok v => .read v
  | .error _ => .done

def afterEquals : Except Exn Bool → FinalizePoint
  | .ok true => .found
  | .ok false => .leaving
  | .error _ => .done

inductive Edge (k : Int) (h : HostId) : FinalizePoint → (o : Op) → (Except Exn o.Ans → FinalizePoint) → Prop
  | enter : Edge k h .start .monitorEnter afterEnter
  | read : Edge k h .held (.hostObjGet k .finalizer) afterRead
  | equals (v) : Edge k h (.read v) (.equals h v) afterEquals
  | clear : Edge k h .found (.hostObjSet k none) fun _ => .leaving
  | leave : Edge k h .leaving (.monitorExit none) fun _ => .done

end FinalizePoint

def finalizeFlow (k : Int) (h : HostId) : Flow Op Op.Ans Exn FinalizePoint := ⟨FinalizePoint.Edge k h, fun _ _ => False⟩

theorem hostFinalized_outline {A : Assumption Op Call Choice Factory} {S : Spec exec A} {t : Nat} {k : Int} {h : HostId}
    (O : S.Outline t (finalizeFlow k h)) : S.Triple t (O.knows .start) (hostFinalized k h) fun _ => O.knows .done := by
  have hleave : S.Triple t (O.knows .leaving) (monitorExit none) fun _ => O.knows .done := O.perform .leave
  refine O.bind .enter (fun _ => ?_) fun _ _ _ hs => hs
  refine O.bind .read (fun v => ?_) fun _ _ _ hs => hs
  refine O.bind (.equals v) (fun same => ?_) fun _ _ _ hs => hs
  cases same with
  | false => exact hleave
  | true =>
    refine .bind (R := fun _ => O.knows .leaving) ?_ fun _ => hleave
    refine .tryCatch (H := fun _ => O.knows .leaving) (fun _ => O.stable _) ?_ fun e => ?_
    · refine (O.perform .clear).weaken fun r s _ hs => ?_
      cases r <;> exact hs
    · exact O.skip .leaving ()

/-! ## The operations of each function -/

/-- What `ConnectHost` performs for key `k`, and what its texts do. -/
def Op.ofConnect (k : Int) : Op → Bool
  | .hostObjSet k' _ => decide (k' = k)
  | .hostURIGet k' => decide (k' = k)
  | .hostDirGet k' => decide (k' = k)
  | .hostSvrGet k' => decide (k' = k)
  | .createApplicationHost k' _ _ => decide (k' = k)
  | .configure k' _ _ _ => decide (k' = k)
  | .concat _ => true
  | .logServerError _ _ _ => true
  | _ => false

/-- What the restart performs for key `k`. -/
def Op.ofRestart (k : Int) : Op → Bool
  | .hostObjGet k' _ => decide (k' = k)
  | .monitorEnter => true
  | .monitorExit _ => true
  | o => o.ofConnect k

/-- What `HandleHostRequest` performs for key `k`. -/
def Op.ofRequest (k : Int) : Op → Bool
  | .hostObjGet k' _ => decide (k' = k)
  | .handleRequest _ k' _ _ => decide (k' = k)
  | .monitorEnter => true
  | .monitorExit _ => true
  | o => o.ofConnect k

/-- What `HostFinalized` performs for key `k`. -/
def Op.ofFinalizer (k : Int) : Op → Bool
  | .monitorEnter => true
  | .monitorExit _ => true
  | .equals _ _ => true
  | .hostObjGet k' _ => decide (k' = k)
  | .hostObjSet k' v => decide (k' = k ∧ v = none)
  | _ => false

/-- What `Destroy` performs. -/
def Op.ofDestroy : Op → Bool
  | .utf8EncodingGet => true
  | .utf8EncodingDrop => true
  | .hostObjCount => true
  | .hostObjSet _ v => decide (v = none)
  | .listDrop _ => true
  | _ => false

theorem atom_performs {ok : Op → Prop} (o : Op) (h : ok o) : (atom o).Performs ok := Prog.Performs.perform h

section
variable (k : Int)

theorem connectHost_performs : (connectHost k).Performs (Op.ofConnect k · = true) := by
  refine .tryCatch (.bind (fun uri => .bind (fun dir => .bind (fun newHost => .bind (fun _ => ?_) ?_) ?_) ?_) ?_) fun e => ?_
  · cases newHost with
    | some host =>
      refine .bind (fun uri => .bind (fun dir => .bind (fun _ => .pure true) ?_) ?_) ?_
      · exact atom_performs (.configure k host uri dir) (by simp [Op.ofConnect])
      · exact atom_performs (.hostDirGet k) (by simp [Op.ofConnect])
      · exact atom_performs (.hostURIGet k) (by simp [Op.ofConnect])
    | none =>
      refine .bind (fun p => .bind (fun _ => .pure false) ?_) ?_
      · exact atom_performs (.logServerError _ _ _) rfl
      · exact atom_performs (.hostSvrGet k) (by simp [Op.ofConnect])
  · exact atom_performs (.hostObjSet k newHost) (by simp [Op.ofConnect])
  · exact atom_performs (.createApplicationHost k uri dir) (by simp [Op.ofConnect])
  · exact atom_performs (.hostDirGet k) (by simp [Op.ofConnect])
  · exact atom_performs (.hostURIGet k) (by simp [Op.ofConnect])
  · refine .bind (fun p => .bind (fun _ => .bind (fun _ => .bind (fun _ => .pure false) ?_) ?_) ?_) ?_
    · exact atom_performs (.hostObjSet k none) (by simp [Op.ofConnect])
    · exact atom_performs (.logServerError _ _ _) rfl
    · exact atom_performs (.logServerError _ _ _) rfl
    · exact atom_performs (.hostSvrGet k) (by simp [Op.ofConnect])

theorem logMapping_performs (what : String) (loglevel : Int) (p : ServerPtr) :
    (logMapping what k loglevel p).Performs (Op.ofConnect k · = true) := by
  refine .bind (fun uri => .bind (fun dir => .bind (fun msg => ?_) ?_) ?_) ?_
  · exact atom_performs (.logServerError msg loglevel p) rfl
  · exact atom_performs (.concat _) rfl
  · exact atom_performs (.hostDirGet k) (by simp [Op.ofConnect])
  · exact atom_performs (.hostURIGet k) (by simp [Op.ofConnect])

theorem logException_performs (what : String) (e : Exn) (loglevel : Int) (p : ServerPtr) :
    (logException what e loglevel p).Performs (Op.ofConnect k · = true) := by
  refine .bind (fun msg => ?_) ?_
  · exact atom_performs (.logServerError msg loglevel p) rfl
  · exact atom_performs (.concat _) rfl

theorem clearStale_performs : (Prog.tryCatch (hostObjSet k none) fun _ => pure ()).Performs (Op.ofConnect k · = true) :=
  .tryCatch (atom_performs (.hostObjSet k none) (by simp [Op.ofConnect])) fun _ => .pure ()

variable {k}

theorem ofRestart_of_connect {α : Type} {p : FProg α} (h : p.Performs (Op.ofConnect k · = true)) :
    p.Performs (Op.ofRestart k · = true) := by
  refine h.imp fun o ho => ?_
  cases o <;> simp_all [Op.ofConnect, Op.ofRestart]

theorem ofRequest_of_restart {α : Type} {p : FProg α} (h : p.Performs (Op.ofRestart k · = true)) :
    p.Performs (Op.ofRequest k · = true) := by
  refine h.imp fun o ho => ?_
  cases o <;> simp_all [Op.ofConnect, Op.ofRestart, Op.ofRequest]

theorem ofRequest_of_connect {α : Type} {p : FProg α} (h : p.Performs (Op.ofConnect k · = true)) :
    p.Performs (Op.ofRequest k · = true) := ofRequest_of_restart (ofRestart_of_connect h)

variable (k)

theorem firstDispatch_performs (obj : Option HostId) (rr : Nat) :
    (firstDispatch k obj rr).Performs (Op.ofRequest k · = true) := by
  have hlog : ∀ (what : String) (e : Exn) (lvl : Int) (n : Option Int),
      (logException what e lvl (.ofRequest rr) >>= fun _ => pure n).Performs (Op.ofRequest k · = true) :=
    fun what e lvl n => .bind (fun _ => .pure n) (ofRequest_of_connect (logException_performs k what e lvl _))
  cases obj with
  | none => exact .pure none
  | some host =>
    refine .tryCatch (.bind (fun n => .pure (some n)) ?_) fun e => ?_
    · exact atom_performs (.handleRequest .first k host rr) (by simp [Op.ofRequest])
    · cases e <;> exact hlog _ _ _ _

theorem restartLocked_performs (obj : Option HostId) (rr : Nat) :
    (restartLocked k obj rr).Performs (Op.ofRestart k · = true) := by
  have hfail : ∀ what, (monitorExit none >>= fun _ => logMapping what k APLOG_ERR (.ofRequest rr) >>= fun _ =>
      pure (Restart.failed 500)).Performs (Op.ofRestart k · = true) := fun what =>
    .bind (fun _ => .bind (fun _ => .pure _) (ofRestart_of_connect (logMapping_performs k what _ _)))
      (atom_performs (.monitorExit none) rfl)
  have htarget : ∀ h, (monitorExit (some k) >>= fun _ => pure (Restart.target h)).Performs (Op.ofRestart k · = true) :=
    fun h => .bind (fun _ => .pure _) (atom_performs (.monitorExit (some k)) rfl)
  have hread : ∀ site, (hostObjGet k site).Performs (Op.ofRestart k · = true) :=
    fun site => atom_performs (.hostObjGet k site) (by simp [Op.ofRestart])
  refine .bind (fun tryobj => .bind (fun obj => ?_) ?_) (hread _)
  · cases obj with
    | some host => exact htarget host
    | none =>
      refine .bind (fun connected => ?_) (ofRestart_of_connect (connectHost_performs k))
      cases connected with
      | false => exact hfail _
      | true =>
        refine .bind (fun obj => ?_) (hread _)
        cases obj with
        | none => exact hfail _
        | some host => exact htarget host
  · unfold releaseStale
    split
    · exact .bind (fun _ => .pure _) (ofRestart_of_connect (clearStale_performs k))
    · exact .pure _

theorem restart_performs (obj : Option HostId) (rr : Nat) : (restart k obj rr).Performs (Op.ofRestart k · = true) := by
  have hfailed : ∀ b e, (restartFailed k rr b e).Performs (Op.ofRestart k · = true) := by
    refine fun b e => .bind (fun _ => .bind (fun _ => .bind (fun _ => .pure _) ?_) ?_) ?_
    · exact ofRestart_of_connect (logException_performs k _ e _ _)
    · exact ofRestart_of_connect (logMapping_performs k _ _ _)
    · cases b with
      | true => exact atom_performs (.monitorExit none) rfl
      | false => exact .pure ()
  refine .bind (fun entered => ?_) (.attempt (atom_performs .monitorEnter rfl))
  cases entered with
  | error e => exact hfailed false e
  | ok _ => exact .tryCatch (restartLocked_performs k obj rr) (hfailed true)

theorem handleHostRequest_performs (rr : Nat) : (handleHostRequest k rr).Performs (Op.ofRequest k · = true) := by
  refine .bind (fun obj => .bind (fun first => ?_) (firstDispatch_performs k obj rr))
    (atom_performs (.hostObjGet k .entry) (by simp [Op.ofRequest]))
  cases first with
  | some n => exact .pure n
  | none =>
    refine .bind (fun _ => .bind (fun restarted => ?_) (ofRequest_of_restart (restart_performs k obj rr))) ?_
    · cases restarted with
      | failed n => exact .pure n
      | target h =>
        refine .tryCatch (atom_performs (.handleRequest .second k h rr) (by simp [Op.ofRequest])) fun e => ?_
        exact .bind (fun _ => .pure _) (ofRequest_of_connect (logException_performs k _ e _ _))
    · exact ofRequest_of_connect (logMapping_performs k _ _ _)

theorem hostFinalized_performs (h : HostId) : (hostFinalized k h).Performs (Op.ofFinalizer k · = true) := by
  refine .bind (fun _ => .bind (fun v => .bind (fun same => ?_) ?_) ?_) ?_
  · cases same with
    | true =>
      refine .bind (fun _ => ?_) (.tryCatch ?_ fun _ => .pure ())
      · exact atom_performs (.monitorExit none) rfl
      · exact atom_performs (.hostObjSet k none) (by simp [Op.ofFinalizer])
    | false => exact atom_performs (.monitorExit none) rfl
  · exact atom_performs (.equals h v) rfl
  · exact atom_performs (.hostObjGet k .finalizer) (by simp [Op.ofFinalizer])
  · exact atom_performs .monitorEnter rfl

end

theorem clearHosts_performs : ∀ (left : Nat) (i : Int), (clearHosts left i).Performs (Op.ofDestroy · = true)
  | 0, _ => .pure ()
  | left + 1, i => .bind (fun _ => clearHosts_performs left (i + 1))
      (.tryCatch (atom_performs (.hostObjSet i none) rfl) fun _ => .pure ())

theorem destroy_performs : destroy.Performs (Op.ofDestroy · = true) := by
  have hdrop : ∀ l, (atom (.listDrop l)).Performs (Op.ofDestroy · = true) := fun l => atom_performs (.listDrop l) rfl
  refine .bind (fun encoding => ?_) (atom_performs .utf8EncodingGet rfl)
  cases encoding with
  | false => exact .pure ()
  | true =>
    refine .bind (fun _ => .bind (fun (hosts : Int) => .bind (fun _ => ?_) (clearHosts_performs hosts.toNat 0)) ?_) ?_
    · exact .bind (fun _ => .bind (fun _ => .bind (fun _ => hdrop _) (hdrop _)) (hdrop _)) (hdrop _)
    · exact atom_performs .hostObjCount rfl
    · exact atom_performs .utf8EncodingDrop rfl

end ModAspNet.L4.HostFactory
