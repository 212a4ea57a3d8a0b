import ModAspNet.L3Router.Handler
import Mathlib.Data.Fintype.Powerset

/-!
# What the `AspNet` directive lets through

The documentation (`docs/mod_aspdotnet.html`, "AspNet Directive") gives a
directive a set of request classes: `Files`, `Directories` and `Virtual` each
add one, `All` and `None` are all and none of them. `meaning` is that reading
of a list of options, and `recognise` the options a word can name.

The flags the module computes keep less: `2 ^ 1` is 3, `2 ^ 2` is 0 and
`2 ^ 3` is 1, so the flag of directories is empty and the flag of files
contains the one of virtual requests (`flagsOf`).

* `toggle_flagsOf`: one word takes the flags of a set of classes to the flags
  of the set the word makes of it.
* `aspNet_gate_exact`: for every directive (or none) and file type, the gate
  agrees with the set exactly when `Separable` holds.
-/
namespace ModAspNet.L3.AccessGate

open ModAspNet.L1.CStr ModAspNet.L2.DirConf ModAspNet.L3.Handler

/-! ## Reference meaning -/

inductive RequestClass where
  | Files | Dirs | Virtual
  deriving DecidableEq, Repr

instance : Fintype RequestClass := ⟨{.Files, .Dirs, .Virtual}, fun c => by cases c <;> decide⟩

/-- The class a file type falls in. -/
def classOf : FileType → Option RequestClass
  | .APR_REG => some .Files
  | .APR_DIR => some .Dirs
  | .APR_NOFILE => some .Virtual
  | _ => none

inductive AspNetOption where
  | all
  | none
  | add (c : RequestClass)
  deriving DecidableEq, Repr

/-- The spellings of an option, in lower case. -/
def AspNetOption.spellings : AspNetOption → List Bytes
  | .all => [lit "on", lit "all"]
  | .none => [lit "off", lit "none"]
  | .add .Files => [lit "files"]
  | .add .Dirs => [lit "dirs", lit "directories"]
  | .add .Virtual => [lit "virtual"]

/-- A word names an option, in any mix of cases. -/
def Names (w : CString) (o : AspNetOption) : Prop := fold w.val ∈ o.spellings

instance (w : CString) (o : AspNetOption) : Decidable (Names w o) :=
  inferInstanceAs (Decidable (_ ∈ _))

def AspNetOption.apply (S : Finset RequestClass) : AspNetOption → Finset RequestClass
  | .all => Finset.univ
  | .none => ∅
  | .add c => insert c S

/-- Options read left to right, from the empty set. -/
def meaning (opts : List AspNetOption) : Finset RequestClass := opts.foldl AspNetOption.apply ∅

/-- An argument that is a sequence of recognised options, with the options it
is a sequence of. -/
structure Argument (G : GetwordConf) where
  line : CString
  opts : List AspNetOption
  named : List.Forall₂ Names (words G line) opts

/-! ## The flags of a set -/

/-- The flags the module keeps for a set of classes. -/
def flagsOf (S : Finset RequestClass) : Nat :=
  if .Files ∈ S then ASPNET_FILES else if .Virtual ∈ S then ASPNET_VIRTUAL else ASPNET_OFF

theorem flagsOf_insert : ∀ (S : Finset RequestClass),
    flagsOf S ||| ASPNET_FILES = flagsOf (insert .Files S) ∧
    flagsOf S ||| ASPNET_DIRS = flagsOf (insert .Dirs S) ∧
    flagsOf S ||| ASPNET_VIRTUAL = flagsOf (insert .Virtual S) := by decide

theorem strcasecmp_lit (w : CString) (s : String) (h : 0 ∉ lit s) :
    strcasecmp w.val (lit s) = 0 ↔ fold w.val = fold (lit s) :=
  strcasecmp_eq_zero w ⟨lit s, h⟩

/-- The comparisons of the loop, on the folded word. -/
theorem toggle_eq (enable : Nat) (w : CString) : toggle enable w =
    if fold w.val = lit "on" ∨ fold w.val = lit "all" then
      some (ASPNET_FILES ||| ASPNET_DIRS ||| ASPNET_VIRTUAL)
    else if fold w.val = lit "off" ∨ fold w.val = lit "none" then some ASPNET_OFF
    else if fold w.val = lit "files" then some (enable ||| ASPNET_FILES)
    else if fold w.val = lit "dirs" ∨ fold w.val = lit "directories" then some (enable ||| ASPNET_DIRS)
    else if fold w.val = lit "virtual" then some (enable ||| ASPNET_VIRTUAL)
    else none := by
  unfold toggle
  simp only [strcasecmp_lit w "on" (by decide), strcasecmp_lit w "all" (by decide),
    strcasecmp_lit w "off" (by decide), strcasecmp_lit w "none" (by decide),
    strcasecmp_lit w "files" (by decide), strcasecmp_lit w "dirs" (by decide),
    strcasecmp_lit w "directories" (by decide), strcasecmp_lit w "virtual" (by decide)]
  rfl

/-- One recognised word, on flags that are those of a set. -/
theorem toggle_flagsOf (S : Finset RequestClass) (w : CString) (o : AspNetOption) (h : Names w o) :
    toggle (flagsOf S) w = some (flagsOf (o.apply S)) := by
  obtain ⟨hf, hd, hv⟩ := flagsOf_insert S
  have hlit : ∀ {w' : Bytes}, w' ∈ o.spellings → fold w.val = w' →
      toggle (flagsOf S) w = some (flagsOf (o.apply S)) := by
    intro w' hw he
    rw [toggle_eq, he]
    cases o with
    | all =>
      simp only [AspNetOption.spellings, List.mem_cons, List.not_mem_nil, or_false] at hw
      rcases hw with rfl | rfl <;> rfl
    | none =>
      simp only [AspNetOption.spellings, List.mem_cons, List.not_mem_nil, or_false] at hw
      rcases hw with rfl | rfl <;> rfl
    | add c =>
      cases c with
      | Files =>
        simp only [AspNetOption.spellings, List.mem_singleton] at hw
        subst hw; exact congrArg some hf
      | Dirs =>
        simp only [AspNetOption.spellings, List.mem_cons, List.not_mem_nil, or_false] at hw
        rcases hw with rfl | rfl <;> exact congrArg some hd
      | Virtual =>
        simp only [AspNetOption.spellings, List.mem_singleton] at hw
        subst hw; exact congrArg some hv
  exact hlit h rfl

theorem toggleAll_flagsOf {ws : List CString} {opts : List AspNetOption} (S : Finset RequestClass)
    (h : List.Forall₂ Names ws opts) :
    toggleAll (flagsOf S) ws = (flagsOf (opts.foldl AspNetOption.apply S), none) := by
  induction h generalizing S with
  | nil => rfl
  | @cons w o ws opts hw _ ih =>
    simp only [toggleAll, toggle_flagsOf S w o hw, List.foldl_cons]
    exact ih (o.apply S)

/-! ## The directory configuration of a request -/

section
variable (G : GetwordConf)

/-- The configuration with one directive, or none. -/
def dirconfOf : Option (Argument G) → Dirconf
  | none => createAspNetDirconf
  | some a => (setAspnetEnable G a.line).1

/-- The classes a directive, or none, stands for. -/
def allowed : Option (Argument G) → Finset RequestClass
  | none => ∅
  | some a => meaning a.opts

/-- A recognised argument is stored whole: no error is returned. -/
theorem setAspnetEnable_argument (a : Argument G) :
    setAspnetEnable G a.line = (⟨flagsOf (meaning a.opts)⟩, none) := by
  have := toggleAll_flagsOf ∅ a.named
  rw [setAspnetEnable_eq_fold, show ASPNET_OFF = flagsOf ∅ from rfl, this]
  rfl

theorem dirconfOf_some (a : Argument G) : dirconfOf G (some a) = ⟨flagsOf (meaning a.opts)⟩ := by
  simp only [dirconfOf, setAspnetEnable_argument]

/-- The request is let past the file type gate. -/
def Passes (d : Dirconf) (r : RequestRec) (uri : CString) : Prop := fileTypeGate d r uri = none

instance (d : Dirconf) (r : RequestRec) (uri : CString) : Decidable (Passes d r uri) :=
  inferInstanceAs (Decidable (_ = _))

/-- The class of a request is one of the given classes. -/
def InClass (ft : FileType) (S : Finset RequestClass) : Prop := ∃ c ∈ S, classOf ft = some c

theorem passes_iff (d : Dirconf) (r : RequestRec) (uri : CString) : Passes d r uri ↔
    (r.filetype = .APR_REG ∧ enabled d ASPNET_FILES = true) ∨
    (r.filetype = .APR_DIR ∧ enabled d ASPNET_DIRS = true) ∨
    (r.filetype = .APR_NOFILE ∧ enabled d ASPNET_VIRTUAL = true) := by
  unfold Passes fileTypeGate
  cases r.filetype <;> simp

theorem inClass_iff (ft : FileType) (S : Finset RequestClass) : InClass ft S ↔
    (ft = .APR_REG ∧ .Files ∈ S) ∨ (ft = .APR_DIR ∧ .Dirs ∈ S) ∨ (ft = .APR_NOFILE ∧ .Virtual ∈ S) := by
  unfold InClass
  cases ft <;> simp [classOf]

/-- What the flags of a set tell the three tests of the gate. -/
theorem enabled_flagsOf : ∀ (S : Finset RequestClass),
    (enabled ⟨flagsOf S⟩ ASPNET_FILES = true ↔ .Files ∈ S ∨ .Virtual ∈ S) ∧
    enabled ⟨flagsOf S⟩ ASPNET_DIRS = false ∧
    (enabled ⟨flagsOf S⟩ ASPNET_VIRTUAL = true ↔ .Files ∈ S ∨ .Virtual ∈ S) := by decide

/-- Where the flags tell the class of the request apart: a file, when `Files`
is set or `Virtual` is not; a directory, when `Dirs` is not set; a virtual
request, when `Virtual` is set or `Files` is not; without a directive,
anything but a file. -/
def Separable (d : Option (Argument G)) : FileType → Prop
  | .APR_REG => d.isSome = true ∧ (.Files ∈ allowed G d ∨ .Virtual ∉ allowed G d)
  | .APR_DIR => .Dirs ∉ allowed G d
  | .APR_NOFILE => .Virtual ∈ allowed G d ∨ .Files ∉ allowed G d
  | _ => True

/-- The gate, for every directive, request class and request, lets through
what the directive stands for exactly where the flags tell the class apart. -/
theorem aspNet_gate_exact (d : Option (Argument G)) (r : RequestRec) (uri : CString) :
    (Passes (dirconfOf G d) r uri ↔ InClass r.filetype (allowed G d)) ↔ Separable G d r.filetype := by
  rw [passes_iff, inClass_iff]
  cases d with
  | none =>
    have h1 : enabled (dirconfOf G none) ASPNET_FILES = true := by
      show enabled createAspNetDirconf _ = _; decide
    have h2 : enabled (dirconfOf G none) ASPNET_DIRS = false := by
      show enabled createAspNetDirconf _ = _; decide
    have h3 : enabled (dirconfOf G none) ASPNET_VIRTUAL = false := by
      show enabled createAspNetDirconf _ = _; decide
    cases r.filetype <;> simp [Separable, allowed, h1, h2, h3]
  | some a =>
    obtain ⟨h1, h2, h3⟩ := enabled_flagsOf (meaning a.opts)
    rw [dirconfOf_some, h1, h2, h3]
    cases r.filetype with
    | APR_REG => simp [Separable, allowed]; tauto
    | APR_DIR => simp [Separable, allowed]
    | APR_NOFILE => simp [Separable, allowed]; tauto
    | _ => simp [Separable]

end

/-! ## A directive that opens what it does not name -/

/-- `AspNet virtual` -/
def virtualOnly : Argument blankWords where
  line := ⟨lit "virtual", by decide⟩
  opts := [.add .Virtual]
  named := by
    have h : words blankWords ⟨lit "virtual", by decide⟩ = [⟨lit "virtual", by decide⟩] := by
      decide +kernel
    rw [h]
    exact .cons (by decide) .nil

/-- A request for a file that exists. -/
def fileRequest : RequestRec where
  handler := some ⟨lit "asp.net", by decide⟩
  uri := some ⟨lit "/a.aspx", by decide⟩
  filename := ⟨lit "C:/w/a.aspx", by decide⟩
  filetype := .APR_REG
  used_path_info := .AP_REQ_DEFAULT_PATH_INFO
  path_info := none

/-- `AspNet virtual` lets a request for an existing file through. -/
theorem virtual_opens_files : ¬ ∀ (G : GetwordConf) (d : Option (Argument G)) (r : RequestRec) (uri : CString),
    Passes (dirconfOf G d) r uri ↔ InClass r.filetype (allowed G d) := by
  intro h
  have := (h blankWords (some virtualOnly) fileRequest ⟨lit "/a.aspx", by decide⟩).mp
    (by rw [dirconfOf_some]; decide)
  revert this
  rw [inClass_iff]
  decide

end ModAspNet.L3.AccessGate
