import ModAspNet.L3Router.Selection
import ModAspNet.L6Process.Passes

/-!
# Mounts of a virtual host

A virtual host is to serve the mounts of the main server beside its own, and
`merge_asp_net_srvconf` computes the table for it: `apr_hash_overlay` of the
two. The result is dropped, and what the function returns is the virtual host's
own table.

* `overlay_union`: the table computed is the union, own mounts first.
* `inherits_iff`: the table returned is, and serves the mounts of the main
  server, exactly when each of them is mounted in the virtual host too.
-/
namespace ModAspNet.L6.Passes

open ModAspNet.L1.CStr ModAspNet.L2.Mount ModAspNet.L3.Handler ModAspNet.L3.Selection
open ModAspNet.Core

/-! ## The property -/

/-- The mount is in the table of a server: some enumeration of the table selects
its host for the URI, and none goes without one. -/
def Served (s : SrvConf) (uri : CString) (m : Alias) : Prop :=
  (∃ items : AprHash Alias, items.Perm s.aliases ∧ selected uri items = some m.host) ∧
    ∀ items : AprHash Alias, items.Perm s.aliases → selected uri items ≠ none

structure Inherits (base add : SrvConf) : Prop where
  union : ∀ key klen, aprHashGet (mergeAspNetSrvconf base add).aliases key klen =
    (aprHashGet add.aliases key klen).or (aprHashGet base.aliases key klen)
  served : ∀ uri, ∀ e ∈ base.aliases, covers uri e.2 = true → aprHashGet add.aliases e.1.1 e.1.2 = none →
    Served (mergeAspNetSrvconf base add) uri e.2
  /-- the table of the main server stays -/
  main : ∀ p hosts, p.servers = base :: hosts → (fixupVirtualHosts p).servers.head? = some base

/-! ## The table that is dropped -/

/-- "The values of the overlay hash override the values of the base". -/
theorem overlay_union {V : Type} : ∀ (overlay base : AprHash V), (overlay.map fun e => keyView e.1).Nodup →
    ∀ key klen, aprHashGet (aprHashOverlay overlay base) key klen =
      (aprHashGet overlay key klen).or (aprHashGet base key klen)
  | [], _, _, _, _ => rfl
  | e :: overlay, base, h, key, klen => by
    obtain ⟨hfresh, hnodup⟩ := List.nodup_cons.mp h
    have ih := overlay_union overlay (Assoc.set keyView base e.1 e.2) hnodup key klen
    rw [show aprHashOverlay (e :: overlay) base = aprHashOverlay overlay (Assoc.set keyView base e.1 e.2) from rfl, ih]
    simp only [aprHashGet, Assoc.get_cons]
    by_cases he : keyView e.1 = keyView (key, klen)
    · have hnone : Assoc.get keyView overlay (keyView (key, klen)) = none := by
        refine Assoc.get_eq_none.mpr fun e' hm heq => hfresh ?_
        exact List.mem_map.mpr ⟨e', hm, heq.trans he.symm⟩
      rw [if_pos he, hnone, ← he, Assoc.get_set_self]
      rfl
    · rw [if_neg he, Assoc.get_set_of_ne _ _ _ he]

/-! ## The table that is returned -/

/-- The virtual host inherits exactly when it has a mount of its own for every
virtual path of the main server. -/
theorem inherits_iff (base add : SrvConf) :
    Inherits base add ↔ ∀ e ∈ base.aliases, aprHashGet add.aliases e.1.1 e.1.2 ≠ none := by
  constructor
  · intro h e he hnone
    have hunion : aprHashGet add.aliases e.1.1 e.1.2 =
        (aprHashGet add.aliases e.1.1 e.1.2).or (aprHashGet base.aliases e.1.1 e.1.2) := h.union e.1.1 e.1.2
    rw [hnone, Option.none_or] at hunion
    exact Assoc.get_eq_none.mp hunion.symm e he rfl
  · intro h
    refine ⟨fun key klen => ?_, fun uri e he _ hnone => absurd hnone (h e he), fun p hosts hp => ?_⟩
    · show aprHashGet add.aliases key klen = _
      cases hadd : aprHashGet add.aliases key klen with
      | some m => rfl
      | none =>
        -- the main server mounts nothing there: the virtual host would too
        have hbase : aprHashGet base.aliases key klen = none := by
          refine Assoc.get_eq_none.mpr fun e he heq => h e he ?_
          show Assoc.get keyView add.aliases (keyView e.1) = none
          rw [heq]; exact hadd
        rw [hbase]; rfl
    · rw [fixupVirtualHosts, hp]; rfl

/-! ## A mount of the main server only -/

/-- The main server mounts `/app`. -/
def mainServer : SrvConf := (mountCmd 0 ⟨[], []⟩ createAspNetSrvconf appMount).2.1

/-- A virtual host without mounts does not find `/app/x.aspx`. -/
theorem main_mount_lost : ¬ ∀ base add : SrvConf, Inherits base add := by
  intro h
  obtain ⟨e, he, hcovers⟩ : ∃ e ∈ mainServer.aliases, covers ⟨lit "/app/x.aspx", by decide⟩ e.2 = true := by
    decide +kernel
  have hserved := (h mainServer createAspNetSrvconf).served _ e he hcovers rfl
  exact hserved.2 [] (.refl _) rfl

end ModAspNet.L6.Passes
