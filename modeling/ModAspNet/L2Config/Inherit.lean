import ModAspNet.L2Config.DirConf

/-!
# Merging the directory configurations of nested sections

httpd creates one `asp_net_dirconf_t` for each section that applies to a
request and merges them from the outermost to the innermost with
`merge_asp_net_dirconf`. The function computes the inherited value into a new
configuration `res`, and returns `add`: what a section without a directive
should inherit is lost.

Configurations live in a memory (`Mem`) and are named by their address, so
that what the merge returns and what it writes can be told apart.

* `mergeFrom_eq`: merging a chain gives the address of its innermost section.
* `chain_inherits_iff`: the effective value is the one the innermost directive
  sets exactly when the innermost section has a directive, or no section has.
-/
namespace ModAspNet.L2.Inherit

open ModAspNet.L1.CStr ModAspNet.L2.DirConf

/-- The configurations allocated so far, each at the address of its position. -/
abbrev Mem := List Dirconf

/-- mirrors mod/mod_aspdotnet.cpp:215-224 -/
def mergeAspNetDirconf (mem : Mem) (basev addv : Nat) : Option (Mem × Nat) :=
  match mem[basev]?, mem[addv]? with
  | some base, some add =>
    let res : Dirconf := ⟨if add.enable = ASPNET_UNSET then base.enable else add.enable⟩
    -- `res` is at address `mem.length`; what is returned is `add`
    some (mem ++ [res], addv)
  | _, _ => none

/-- The argument of the section's `AspNet` directive, if it has one. -/
abbrev SectionArg := Option CString

/-- The configuration of one section, as httpd fills it in. -/
def sectionConf (G : GetwordConf) : SectionArg → Dirconf
  | none => createAspNetDirconf
  | some line => (setAspnetEnable G line).1

/-- Merge the configurations at some addresses, one after the other, into the
one at `acc`. -/
def mergeFrom (mem : Mem) (acc : Nat) : List Nat → Option (Mem × Nat)
  | [] => some (mem, acc)
  | addr :: addrs => (mergeAspNetDirconf mem acc addr).bind fun m => mergeFrom m.1 m.2 addrs

/-- The configuration a result points to. -/
def readBack (m : Option (Mem × Nat)) : Option Dirconf := m.bind fun m => m.1[m.2]?

section
variable (G : GetwordConf) (outer : SectionArg) (inner : List SectionArg)

/-- The effective configuration of a chain of sections, the outermost first. -/
def effective : Option Dirconf :=
  readBack (mergeFrom ((outer :: inner).map (sectionConf G)) 0 (List.range' 1 inner.length))

/-- The value the innermost section with a directive sets. -/
def innermostSet : Option Nat :=
  (outer :: inner).reverse.findSome? fun s => s.map fun line => (setAspnetEnable G line).1.enable

/-- The effective value is that of the innermost directive, and unset exactly
without one. -/
structure Inherits : Prop where
  value : (effective G outer inner).map Dirconf.enable = some ((innermostSet G outer inner).getD ASPNET_UNSET)
  unset : (effective G outer inner).map Dirconf.enable = some ASPNET_UNSET ↔ ∀ s ∈ outer :: inner, s = none

/-- The innermost section has a directive, or no section has. -/
def InnermostDecides : Prop :=
  (inner.getLastD outer).isSome = true ∨ ∀ s ∈ outer :: inner, s = none

instance : Decidable (InnermostDecides outer inner) := inferInstanceAs (Decidable (_ ∨ _))

end

/-- Merging the two inner ones first, or the two outer ones, reads the same. -/
def MergeAssoc : Prop := ∀ (mem : Mem) (a b c : Nat), a < mem.length → b < mem.length → c < mem.length →
  readBack ((mergeAspNetDirconf mem a b).bind fun m => mergeAspNetDirconf m.1 m.2 c) =
    readBack ((mergeAspNetDirconf mem b c).bind fun m => mergeAspNetDirconf m.1 a m.2)

/-- No configuration that was there is changed, the two given among them. -/
def MergePure : Prop := ∀ (mem mem' : Mem) (a b r : Nat),
  mergeAspNetDirconf mem a b = some (mem', r) → ∀ p < mem.length, mem'[p]? = mem[p]?

/-! ## The merge -/

/-- Merging two configurations that are there allocates one and returns the
second. -/
theorem merge_spec {mem : Mem} {a b : Nat} (ha : a < mem.length) (hb : b < mem.length) :
    ∃ res, mergeAspNetDirconf mem a b = some (mem ++ [res], b) := by
  unfold mergeAspNetDirconf
  rw [List.getElem?_eq_getElem ha, List.getElem?_eq_getElem hb]
  exact ⟨_, rfl⟩

theorem merge_assoc : MergeAssoc := by
  intro mem a b c ha hb hc
  have hlen : ∀ res : Dirconf, ∀ p, p < mem.length → p < (mem ++ [res]).length := by
    intro res p hp; rw [List.length_append]; omega
  obtain ⟨r1, h1⟩ := merge_spec ha hb
  obtain ⟨r2, h2⟩ := merge_spec hb hc
  obtain ⟨r3, h3⟩ := merge_spec (hlen r1 b hb) (hlen r1 c hc)
  obtain ⟨r4, h4⟩ := merge_spec (hlen r2 a ha) (hlen r2 c hc)
  simp only [h1, h2, Option.bind_some, h3, h4, readBack]
  simp [List.getElem?_append_left, hc]

theorem merge_pure : MergePure := by
  intro mem mem' a b r h p hp
  unfold mergeAspNetDirconf at h
  split at h
  · cases h; exact List.getElem?_append_left hp
  · cases h

/-! ## Chains -/

/-- A chain of any length: what was there stays, and the last address merged
is the result. -/
theorem mergeFrom_eq : ∀ (addrs : List Nat) (mem : Mem) (acc : Nat), acc < mem.length →
    (∀ p ∈ addrs, p < mem.length) →
    ∃ new, mergeFrom mem acc addrs = some (mem ++ new, addrs.getLastD acc)
  | [], mem, acc, _, _ => ⟨[], by simp [mergeFrom]⟩
  | addr :: addrs, mem, acc, hacc, hall => by
    have haddr := hall addr (by simp)
    obtain ⟨res, h⟩ := merge_spec hacc haddr
    have hlen : ∀ p, p < mem.length → p < (mem ++ [res]).length := by
      intro p hp; rw [List.length_append]; omega
    obtain ⟨new, ih⟩ := mergeFrom_eq addrs (mem ++ [res]) addr (hlen addr haddr)
      (fun p hp => hlen p (hall p (List.mem_cons_of_mem _ hp)))
    refine ⟨res :: new, ?_⟩
    rw [mergeFrom, h, Option.bind_some, ih, List.getLastD_cons]
    simp

section
variable (G : GetwordConf) (outer : SectionArg) (inner : List SectionArg)

theorem getLastD_range' (n : Nat) : (List.range' 1 n).getLastD 0 = n := by
  cases n with
  | zero => rfl
  | succ n => simp [List.getLastD_eq_getLast?, List.getLast?_range']

/-- The effective configuration is the innermost section's own. -/
theorem effective_eq : effective G outer inner = some (sectionConf G (inner.getLastD outer)) := by
  have hlen : ((outer :: inner).map (sectionConf G)).length = inner.length + 1 := by simp
  obtain ⟨new, h⟩ := mergeFrom_eq (List.range' 1 inner.length) ((outer :: inner).map (sectionConf G)) 0
    (by omega) (by intro p hp; have := List.mem_range'_1.mp hp; omega)
  rw [effective, h, getLastD_range', readBack, Option.bind_some,
    List.getElem?_append_left (by omega), List.getElem?_map]
  have : (outer :: inner)[inner.length]? = some (inner.getLastD outer) := by
    rw [List.getLastD_eq_getLast?, ← List.getLast?_cons, List.getLast?_eq_getElem?]; simp
  rw [this]; rfl

theorem innermostSet_of_some {line : CString} (h : inner.getLastD outer = some line) :
    innermostSet G outer inner = some (setAspnetEnable G line).1.enable := by
  have hl : (outer :: inner).getLast? = some (some line) := by
    rw [List.getLast?_cons, ← List.getLastD_eq_getLast?, h]
  obtain ⟨init, hi⟩ := List.getLast?_eq_some_iff.mp hl
  simp [innermostSet, hi]

theorem innermostSet_eq_none : innermostSet G outer inner = none ↔ ∀ s ∈ outer :: inner, s = none := by
  simp only [innermostSet, List.findSome?_eq_none_iff, List.mem_reverse, Option.map_eq_none_iff]

theorem getLastD_mem : inner.getLastD outer ∈ outer :: inner := by
  rw [List.getLastD_eq_getLast?]
  cases h : inner.getLast? with
  | none => simp
  | some s => exact List.mem_cons_of_mem _ (List.mem_of_getLast? h)

theorem inherits_of_directive {line : CString} (h : inner.getLastD outer = some line) :
    Inherits G outer inner := by
  have hset := innermostSet_of_some G outer inner h
  refine ⟨?_, ?_⟩ <;> rw [effective_eq, h]
  · rw [hset]; rfl
  · constructor
    · intro he
      exact absurd (Option.some.inj he) (enable_ne_unset G line)
    · intro hall
      rw [(innermostSet_eq_none G outer inner).mpr hall] at hset
      cases hset

theorem inherits_of_none (h : ∀ s ∈ outer :: inner, s = none) : Inherits G outer inner := by
  have hlast := h _ (getLastD_mem outer inner)
  refine ⟨?_, ?_⟩ <;> rw [effective_eq, hlast]
  · rw [(innermostSet_eq_none G outer inner).mpr h]; rfl
  · exact ⟨fun _ => h, fun _ => rfl⟩

/-- For every chain of sections, the effective value is inherited, the merge
is associative and leaves its arguments alone, exactly when the innermost
section has a directive or none has. -/
theorem chain_inherits_iff :
    (Inherits G outer inner ∧ MergeAssoc ∧ MergePure) ↔ InnermostDecides outer inner := by
  constructor
  · rintro ⟨⟨-, hunset⟩, -, -⟩
    cases h : inner.getLastD outer with
    | some line => exact .inl (by rw [h]; rfl)
    | none =>
      rw [effective_eq, h] at hunset
      exact .inr (hunset.mp rfl)
  · rintro (h | h)
    · obtain ⟨line, hline⟩ := Option.isSome_iff_exists.mp h
      exact ⟨inherits_of_directive G outer inner hline, merge_assoc, merge_pure⟩
    · exact ⟨inherits_of_none G outer inner h, merge_assoc, merge_pure⟩

end

/-- `AspNet files` around a section without a directive is not inherited. -/
theorem files_not_inherited : ¬ ∀ (G : GetwordConf) (outer : SectionArg) (inner : List SectionArg),
    Inherits G outer inner ∧ MergeAssoc ∧ MergePure := by
  intro h
  have hunset := (h blankWords (some ⟨lit "files", by decide⟩) [none]).1.unset
  rw [effective_eq] at hunset
  have := hunset.mp rfl
  revert this
  decide

end ModAspNet.L2.Inherit
