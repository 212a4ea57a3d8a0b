import ModAspNet.Core.Assoc
import ModAspNet.Core.Intern
import ModAspNet.L1Text.CStr

/-!
# `AspNetMount`: host records and alias tables

`mount_cmd` keeps two hash tables. `global_conf->hosts` lives in the process
pool and survives restarts; its key is the combined string
`vpath NUL ppath NUL`, and its values are the host records. The alias table of
a server lives in the configuration pool, starts empty at every pass, and maps
a virtual path to an alias that points to a host record.

* A pointer (`Ptr`) is the buffer it points into, the pool that buffer was
  allocated from, and an offset; buffers are written once, when allocated.
* A host record is named by its position in `records`, which stands for its
  address: records are allocated in the process pool and never freed.

Results, for tables in the form `mount_cmd` leaves them (`HostTable.WF`):
* `combined_inj`: the combined string determines both paths.
* `get_combined`: looking the combined string up is looking the pair of paths
  up among the records.
* `mountCmd_names`, `mountCmd_host`: a successful mount interns the pair, and
  its alias points to the record so named.
-/
namespace ModAspNet.L2.Mount

open ModAspNet.L1.CStr
open ModAspNet.Core

/-! ## Pools and pointers -/

/-- `conf n`: the configuration pool of pass `n`, cleared when the next pass
begins. -/
inductive Pool where
  | process
  | conf (pass : Nat)
  deriving DecidableEq, Repr

structure Ptr where
  pool : Pool
  buf : Bytes
  off : Nat
  deriving DecidableEq

/-- Pointer arithmetic. -/
def Ptr.add (p : Ptr) (n : Nat) : Ptr := { p with off := p.off + n }

/-- The `n` bytes at `p`. -/
def Ptr.bytes (p : Ptr) (n : Nat) : Bytes := (p.buf.drop p.off).take n

/-- The C string at `p`. -/
def Ptr.str (p : Ptr) : CString := cstr (p.buf.drop p.off)

/-- The buffer is still allocated while pass `now` is the current one. -/
def Ptr.Alive (now : Nat) (p : Ptr) : Prop := p.pool = .process ∨ p.pool = .conf now

/-! ## Records and tables -/

/-- `asp_net_host_conf_t`; mirrors mod/mod_aspdotnet.cpp:70-83 -/
structure HostConf where
  combined_len : Nat
  virtual_path : Ptr
  physical_path : Ptr
  host_key : Int
  deriving DecidableEq

/-- The address of a host record. -/
abbrev HostPtr := Nat

/-- `asp_net_alias_t`; mirrors mod/mod_aspdotnet.cpp:96-101 -/
structure Alias where
  virtual_path_len : Nat
  virtual_path : Ptr
  host : HostPtr
  len_eq : virtual_path_len = virtual_path.str.length

/-- A key of an `apr_hash_t`: a pointer and a length. -/
abbrev HashKey := Ptr × Nat

/-- Two keys are one when their lengths and the bytes under them agree. -/
def keyView (k : HashKey) : Nat × Bytes := (k.2, k.1.bytes k.2)

/-- `apr_hash_t`. "The key is stored as is"
(apache2_4_include/apr_hash.h:101-112). -/
abbrev AprHash (V : Type) := List (HashKey × V)

def aprHashGet {V : Type} (h : AprHash V) (key : Ptr) (klen : Nat) : Option V :=
  Assoc.get keyView h (keyView (key, klen))

def aprHashSet {V : Type} (h : AprHash V) (key : Ptr) (klen : Nat) (v : V) : AprHash V :=
  Assoc.set keyView h (key, klen) v

/-- "The values of the overlay hash override the values of the base"
(apache2_4_include/apr_hash.h:204-215). -/
def aprHashOverlay {V : Type} (overlay base : AprHash V) : AprHash V :=
  overlay.foldl (fun t e => Assoc.set keyView t e.1 e.2) base

/-- The part of `asp_net_conf_t` that `mount_cmd` works on, with the host
records the table points to; mirrors mod/mod_aspdotnet.cpp:85-93 -/
structure HostTable where
  hosts : AprHash HostPtr
  records : List HostConf

/-- `asp_net_srvconf_t`; mirrors mod/mod_aspdotnet.cpp:103-105 -/
structure SrvConf where
  aliases : AprHash Alias

/-- mirrors mod/mod_aspdotnet.cpp:108-114 -/
def createAspNetSrvconf : SrvConf := ⟨[]⟩

/-- The overlay is computed and dropped: the result is `add` itself.
mirrors mod/mod_aspdotnet.cpp:116-122 -/
def mergeAspNetSrvconf (base add : SrvConf) : SrvConf :=
  let _merged := aprHashOverlay add.aliases base.aliases
  add

/-! ## `mount_cmd` -/

/-- One `AspNetMount` line and what the system answers about it: `root` is the
result of `apr_filepath_merge` of the argument to the server root (`none`: it
failed, or gave no path), `isDir` whether `apr_stat` succeeded on it and
reported a directory. -/
structure MountArgs where
  uri : CString
  rootarg : CString
  root : Option CString
  isDir : Bool

/-- `vpath NUL ppath NUL`. -/
def combined (v p : CString) : Bytes := v.val ++ 0 :: (p.val ++ [0])

theorem combined_length (v p : CString) : (combined v p).length = v.length + p.length + 2 := by
  simp only [combined, CString.length, List.length_append, List.length_cons, List.length_nil]
  omega

theorem str_combined (pool : Pool) (v p : CString) : (Ptr.mk pool (combined v p) 0).str = v := by
  simp [Ptr.str, combined, cstr_terminated]

theorem str_combined_add (pool : Pool) (v p : CString) :
    ((Ptr.mk pool (combined v p) 0).add (v.length + 1)).str = p := by
  have : (combined v p).drop (v.length + 1) = p.val ++ 0 :: [] := by
    simp [combined, CString.length, ← List.drop_drop]
  simp only [Ptr.str, Ptr.add, Nat.zero_add, this, cstr_terminated]

/-- The record `mount_cmd` makes for a pair of paths. -/
def newHost (v p : CString) (key : Int) : HostConf where
  combined_len := v.length + p.length + 2
  virtual_path := ⟨.process, combined v p, 0⟩
  physical_path := Ptr.add ⟨.process, combined v p, 0⟩ (v.length + 1)
  host_key := key

/-- mirrors mod/mod_aspdotnet.cpp:125-186. The second component of the result
is the server's alias table, the third the log lines. -/
def mountCmd (now : Nat) (g : HostTable) (s : SrvConf) (a : MountArgs) :
    HostTable × SrvConf × List Bytes :=
  match a.root with
  | none =>
    (g, s, [lit "mod_aspdotnet: Failed to resolve the full file pathfor AspNetMount \"" ++
      a.uri.val ++ lit "\" \"" ++ a.rootarg.val ++ lit "\""])
  | some root =>
    if a.isDir = false then
      (g, s, [lit "mod_aspdotnet: File path is not a directory, or could not stat " ++
        lit "path for AspNetMount \"" ++ a.uri.val ++ lit "\" \"" ++ a.rootarg.val ++ lit "\""])
    else
      -- memcpy of `uri` and of `root`, each with its NUL, into one buffer
      let virtual_path : Ptr := ⟨.conf now, combined a.uri root, 0⟩
      let combined_len := a.uri.length + root.length + 2
      let found := aprHashGet g.hosts virtual_path combined_len
      let host := found.getD g.records.length
      -- a new record takes its own copy of the buffer, in the process pool
      let g' : HostTable := match found with
        | some _ => g
        | none =>
          { hosts := aprHashSet g.hosts (newHost a.uri root (-1)).virtual_path
              (newHost a.uri root (-1)).combined_len host
            records := g.records ++ [newHost a.uri root (-1)] }
      let mount : Alias := ⟨a.uri.length, virtual_path, host, by rw [str_combined]⟩
      (g', ⟨aprHashSet s.aliases virtual_path a.uri.length mount⟩, [])

/-- The mount went through: the path resolved and is a directory. -/
def MountArgs.Succeeds (a : MountArgs) (root : CString) : Prop := a.root = some root ∧ a.isDir = true

/-- A mount that fails changes neither table. -/
theorem mountCmd_failed (now : Nat) (g : HostTable) (s : SrvConf) (a : MountArgs)
    (h : ∀ root, ¬ a.Succeeds root) :
    (mountCmd now g s a).1 = g ∧ (mountCmd now g s a).2.1 = s := by
  unfold mountCmd
  split
  · exact ⟨rfl, rfl⟩
  · rename_i root hr
    split
    · exact ⟨rfl, rfl⟩
    · rename_i hd
      exact absurd ⟨hr, by simpa using hd⟩ (h root)

/-! ## The combined key -/

theorem combined_inj {v p v' p' : CString} (h : combined v p = combined v' p') : v = v' ∧ p = p' := by
  have hv : v = v' := by
    rw [← str_combined .process v p, h, str_combined]
  subst hv
  exact ⟨rfl, by rw [← str_combined_add .process v p, h, str_combined_add]⟩

/-- The view of a combined key, wherever the buffer was allocated. -/
theorem keyView_combined (pool : Pool) (v p : CString) :
    keyView (⟨pool, combined v p, 0⟩, v.length + p.length + 2) =
      (v.length + p.length + 2, combined v p) := by
  simp [keyView, Ptr.bytes, ← combined_length]

/-! ## The form of the host table -/

/-- The pair of paths a record shows. -/
def HostConf.paths (r : HostConf) : CString × CString := (r.virtual_path.str, r.physical_path.str)

/-- The pairs of paths of all records, in the order of their addresses. -/
def HostTable.names (g : HostTable) : List (CString × CString) := g.records.map HostConf.paths

@[simp] theorem newHost_paths (v p : CString) (key : Int) : (newHost v p key).paths = (v, p) := by
  simp only [HostConf.paths, newHost, str_combined, str_combined_add]

/-- Each record is as `mount_cmd` made it, up to its key; the hash has one
entry for each record, keyed by the record's own buffer; no pair of paths has
two records. -/
structure HostTable.WF (g : HostTable) : Prop where
  made : ∀ r ∈ g.records, ∃ v p, r = newHost v p r.host_key
  entries : g.hosts = g.records.zipIdx.map fun x => ((x.1.virtual_path, x.1.combined_len), x.2)
  nodup : g.names.Nodup

theorem wf_empty : HostTable.WF ⟨[], []⟩ := ⟨by simp, by simp, by simp [HostTable.names]⟩

theorem get_zipIdx (v p : CString) : ∀ (rs : List HostConf) (k : Nat),
    (∀ r ∈ rs, ∃ v p, r = newHost v p r.host_key) →
    Assoc.get keyView ((rs.zipIdx k).map fun x => ((x.1.virtual_path, x.1.combined_len), x.2))
      (v.length + p.length + 2, combined v p) =
    if (v, p) ∈ rs.map HostConf.paths then
      some (k + Intern.name (rs.map HostConf.paths) (v, p)) else none
  | [], k, _ => by simp
  | r :: rs, k, h => by
    obtain ⟨v', p', hr⟩ := h r (by simp)
    have ih := get_zipIdx v p rs (k + 1) (fun r hr => h r (List.mem_cons_of_mem _ hr))
    have hp : r.paths = (v', p') := by rw [hr]; simp
    have hview : keyView (r.virtual_path, r.combined_len) = (v'.length + p'.length + 2, combined v' p') := by
      rw [hr]; exact keyView_combined _ v' p'
    rw [List.zipIdx_cons, List.map_cons, Assoc.get_cons, ih]
    simp only [hview, List.map_cons, hp, List.mem_cons, Intern.name_cons]
    by_cases heq : (v', p') = (v, p)
    · cases heq; simp
    · have hne : (v'.length + p'.length + 2, combined v' p') ≠ (v.length + p.length + 2, combined v p) := by
        intro e
        obtain ⟨rfl, rfl⟩ := combined_inj (Prod.mk.inj e).2
        exact heq rfl
      have heq' : (v, p) ≠ (v', p') := fun e => heq e.symm
      rw [if_neg hne]
      by_cases hm : (v, p) ∈ rs.map HostConf.paths
      · rw [if_pos hm, if_pos (.inr hm), if_neg heq]
        simp only [Option.some.injEq]; omega
      · rw [if_neg hm, if_neg (by simp only [heq', hm, or_self, not_false_eq_true])]

/-- Looking the combined string up finds the record of the pair, if any. -/
theorem get_combined {g : HostTable} (h : g.WF) (pool : Pool) (v p : CString) :
    aprHashGet g.hosts ⟨pool, combined v p, 0⟩ (v.length + p.length + 2) =
      if (v, p) ∈ g.names then some (Intern.name g.names (v, p)) else none := by
  unfold aprHashGet
  rw [keyView_combined, h.entries, get_zipIdx v p g.records 0 h.made]
  simp [HostTable.names]

/-! ## What a successful mount does -/

theorem mountCmd_names {g : HostTable} (h : g.WF) (now : Nat) (s : SrvConf) (a : MountArgs)
    {root : CString} (hs : a.Succeeds root) :
    (mountCmd now g s a).1.names = (Intern.intern g.names (a.uri, root)).2 := by
  obtain ⟨h1, h2⟩ := hs
  simp only [mountCmd, h1, h2, Bool.true_eq_false, if_false, get_combined h]
  by_cases hm : (a.uri, root) ∈ g.names
  · rw [if_pos hm, Intern.intern_of_mem hm]
  · rw [if_neg hm, Intern.intern_of_not_mem hm]
    simp [HostTable.names]

theorem mountCmd_wf {g : HostTable} (h : g.WF) (now : Nat) (s : SrvConf) (a : MountArgs) :
    (mountCmd now g s a).1.WF := by
  by_cases hs : ∃ root, a.Succeeds root
  · obtain ⟨root, hs⟩ := hs
    have hn := mountCmd_names h now s a hs
    have hnd : (mountCmd now g s a).1.names.Nodup := hn ▸ Intern.intern_nodup _ h.nodup
    obtain ⟨h1, h2⟩ := hs
    simp only [mountCmd, h1, h2, Bool.true_eq_false, if_false, get_combined h] at hnd ⊢
    by_cases hm : (a.uri, root) ∈ g.names
    · simpa only [if_pos hm] using h
    · simp only [if_neg hm, Option.getD_none] at hnd ⊢
      refine ⟨?_, ?_, hnd⟩
      · intro r hr
        rcases List.mem_append.mp hr with hr | hr
        · exact h.made r hr
        · rw [List.mem_singleton] at hr; subst hr; exact ⟨a.uri, root, rfl⟩
      · have hnone : Assoc.get keyView g.hosts (keyView
            ((newHost a.uri root (-1)).virtual_path, (newHost a.uri root (-1)).combined_len)) = none := by
          have := get_combined h .process a.uri root
          rw [if_neg hm] at this; exact this
        simp only [aprHashSet, Assoc.set_of_get_none _ hnone]
        rw [h.entries]
        simp [List.zipIdx_append]
  · have := (mountCmd_failed now g s a (fun root hr => hs ⟨root, hr⟩)).1
    rw [this]; exact h

/-- Records are added at the end. -/
theorem mountCmd_records (now : Nat) (g : HostTable) (s : SrvConf) (a : MountArgs) :
    g.records <+: (mountCmd now g s a).1.records := by
  unfold mountCmd
  split
  · exact List.prefix_refl _
  · dsimp only
    split
    · exact List.prefix_refl _
    · split
      · exact List.prefix_refl _
      · exact List.prefix_append _ _

/-- The alias of a successful mount, and the table it is stored in. -/
theorem mountCmd_host {g : HostTable} (h : g.WF) (now : Nat) (s : SrvConf) (a : MountArgs)
    {root : CString} (hs : a.Succeeds root) :
    ∃ m : Alias, m.host = (Intern.intern g.names (a.uri, root)).1 ∧
      m.virtual_path = ⟨.conf now, combined a.uri root, 0⟩ ∧
      (mountCmd now g s a).2.1 = ⟨aprHashSet s.aliases m.virtual_path a.uri.length m⟩ := by
  obtain ⟨h1, h2⟩ := hs
  refine ⟨⟨a.uri.length, ⟨.conf now, combined a.uri root, 0⟩, (Intern.intern g.names (a.uri, root)).1,
    by rw [str_combined]⟩, rfl, rfl, ?_⟩
  simp only [mountCmd, h1, h2, Bool.true_eq_false, if_false, get_combined h]
  by_cases hm : (a.uri, root) ∈ g.names
  · simp only [if_pos hm, Option.getD_some, Intern.intern_of_mem hm]
  · simp only [if_neg hm, Option.getD_none, Intern.intern_of_not_mem hm]
    simp [HostTable.names]

end ModAspNet.L2.Mount
