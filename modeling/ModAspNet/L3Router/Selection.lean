import ModAspNet.L3Router.Handler

/-!
# Which mount a request gets

Introduction (`docs/introduction.html`, "Multiple ASP.NET virtual webs"): each
`AspNetMount` maps a virtual path to one ASP.NET application, and several may
be mounted, also one below another. The handler takes the first alias of the
enumeration whose virtual path begins the URI, and `apr_hash_next` promises no
order, so of two nested mounts either can be the one that serves.

* `selectHost_perms`: what the loop can select over all orders is the hosts
  of the covering mounts.
* `selection_exact`: the selection is a function of the table, and the most
  specific one, exactly when all covering mounts share their host.
-/
namespace ModAspNet.L3.Selection

open ModAspNet.L1.CStr ModAspNet.L2.Mount ModAspNet.L3.Handler
open ModAspNet.Core

/-- The host selected when `apr_hash_first` / `apr_hash_next` yield the
entries in the order `items`. -/
def selected (uri : CString) (items : AprHash Alias) : Option HostPtr :=
  selectHost uri (items.map Prod.snd)

/-- The mount of an entry covers the URI. -/
def Covering (uri : CString) (aliases : AprHash Alias) (e : HashKey × Alias) : Prop :=
  e ∈ aliases ∧ covers uri e.2 = true

/-- A covering mount with the longest virtual path. -/
def MostSpecific (uri : CString) (aliases : AprHash Alias) (e : HashKey × Alias) : Prop :=
  Covering uri aliases e ∧
    ∀ e', Covering uri aliases e' → e'.2.virtual_path_len ≤ e.2.virtual_path_len

/-- The order of the enumeration does not matter, and the most specific mount
is selected. -/
structure Determined (uri : CString) (aliases : AprHash Alias) : Prop where
  any_order : ∀ items items' : AprHash Alias, items.Perm aliases → items'.Perm aliases →
    selected uri items = selected uri items'
  longest : ∀ items : AprHash Alias, items.Perm aliases →
    ∀ e, MostSpecific uri aliases e → selected uri items = some e.2.host

/-- No two covering mounts lead to different hosts. -/
def OneHost (uri : CString) (aliases : AprHash Alias) : Prop :=
  ∀ e e', Covering uri aliases e → Covering uri aliases e' → e.2.host = e'.2.host

section
variable (uri : CString) (aliases : AprHash Alias)

theorem selected_eq_find (items : AprHash Alias) :
    selected uri items = (items.find? fun e => covers uri e.2).map fun e => e.2.host := by
  rw [selected, selectHost_eq_find, List.find?_map, Option.map_map]
  rfl

/-- Some mount covers the URI: every order selects `host` exactly when every
covering mount leads to it. -/
theorem selectHost_perms {e : HashKey × Alias} (he : Covering uri aliases e) (host : HostPtr) :
    (∀ items : AprHash Alias, items.Perm aliases → selected uri items = some host) ↔
      ∀ e', Covering uri aliases e' → e'.2.host = host := by
  simp only [selected_eq_find]
  rw [Assoc.find?_hit_const_iff (fun e : HashKey × Alias => covers uri e.2) (fun e => e.2.host)
    aliases host ⟨e, he⟩]
  exact ⟨fun h e' ⟨hm, hc⟩ => h e' hm hc, fun h e' hm hc => h e' ⟨hm, hc⟩⟩

/-- No mount covers the URI: nothing is selected, in any order. -/
theorem selected_none (h : ∀ e, ¬ Covering uri aliases e) {items : AprHash Alias}
    (hp : items.Perm aliases) : selected uri items = none := by
  rw [selected_eq_find, Option.map_eq_none_iff, List.find?_eq_none]
  intro e he hc
  exact h e ⟨hp.mem_iff.mp he, hc⟩

/-- For every table and URI, the selection depends on the configuration alone
and is the most specific mount's exactly when all covering mounts share their
host. -/
theorem selection_exact : Determined uri aliases ↔ OneHost uri aliases := by
  constructor
  · intro h e e' he he'
    have hconst : ∀ items : AprHash Alias, items.Perm aliases →
        selected uri items = some e.2.host := by
      obtain ⟨s, t, hst⟩ := List.append_of_mem he.1
      have hfirst : (e :: (s ++ t)).Perm aliases := hst ▸ List.perm_middle.symm
      intro items hp
      rw [h.any_order items _ hp hfirst, selected_eq_find]
      simp only [List.find?_cons, he.2, Option.map_some]
    exact ((selectHost_perms uri aliases he e.2.host).mp hconst e' he').symm
  · intro h
    by_cases hc : ∃ e, Covering uri aliases e
    · obtain ⟨e, he⟩ := hc
      have hconst := (selectHost_perms uri aliases he e.2.host).mpr fun e' he' => h e' e he' he
      refine ⟨?_, ?_⟩
      · intro items items' hp hp'
        rw [hconst items hp, hconst items' hp']
      · rintro items hp e' ⟨he', -⟩
        rw [hconst items hp, h e e' he he']
    · have hnone := fun e he => hc ⟨e, he⟩
      refine ⟨?_, ?_⟩
      · intro items items' hp hp'
        rw [selected_none uri aliases hnone hp, selected_none uri aliases hnone hp']
      · rintro items _ e ⟨he, -⟩
        exact absurd he (hnone e)

end

/-! ## A root mount beside an application mount -/

def rootMount : MountArgs :=
  ⟨⟨lit "/", by decide⟩, ⟨lit "C:/web", by decide⟩, some ⟨lit "C:/web", by decide⟩, true⟩

def appMount : MountArgs :=
  ⟨⟨lit "/app", by decide⟩, ⟨lit "C:/app", by decide⟩, some ⟨lit "C:/app", by decide⟩, true⟩

/-- The alias table after both directives of the first pass. -/
def nestedMounts : AprHash Alias :=
  let m := mountCmd 0 ⟨[], []⟩ createAspNetSrvconf rootMount
  (mountCmd 0 m.1 m.2.1 appMount).2.1.aliases

/-- `/app/x.aspx` gets the one application or the other as the table is
enumerated. -/
theorem nested_mounts_not_determined : ¬ ∀ (uri : CString) (aliases : AprHash Alias),
    Determined uri aliases := by
  intro h
  have := (h ⟨lit "/app/x.aspx", by decide⟩ nestedMounts).any_order nestedMounts nestedMounts.reverse
    (List.Perm.refl _) (List.reverse_perm _)
  revert this
  decide +kernel

end ModAspNet.L3.Selection
