import ModAspNet.L1Text.CStr

/-!
# The `AspNet` directive and the directory configuration

`set_aspnet_enable` reads the raw argument of an `AspNet` directive word by
word with httpd's `ap_getword_conf` and folds the words into an `int` of
flags, `asp_net_dirconf_t.enable`. `merge_asp_net_dirconf` combines the
configuration of an enclosing section with the one of the section inside it.

`ap_getword_conf` is httpd's (`apache2_4_include/httpd.h:1489-1495`, "get the
second word in the string paying attention to quoting"); the module relies
only on its moving on, so it is a parameter (`GetwordConf`).

The flag values are written `2 ^ 0` .. `2 ^ 3` in the source, where `^` is
exclusive or; so they are here.

* `setAspnetEnable_eq_fold`: the loop is a fold over the words of the line.
* `enable_ne_unset`: whatever the argument, a directive never leaves the
  value that stands for "no directive".
-/
namespace ModAspNet.L2.DirConf

open ModAspNet.L1.CStr

/-- `ap_getword_conf`: the next word of a line and the rest of the line. -/
structure GetwordConf where
  next : CString → CString × CString
  /-- Something of a non-empty line is always consumed. -/
  advances : ∀ line, line.val ≠ [] → (next line).2.length < line.length

def isBlank (c : UInt8) : Bool := c = 32 ∨ c = 9

/-- `ap_getword_conf` on lines without quotes: words are separated by blanks. -/
def blankWords : GetwordConf where
  next line :=
    let s := line.val.dropWhile isBlank
    (⟨s.takeWhile (fun c => !isBlank c), fun h =>
        line.nonul ((List.dropWhile_sublist _).subset ((List.takeWhile_sublist _).subset h))⟩,
      ⟨(s.dropWhile fun c => !isBlank c).dropWhile isBlank, fun h =>
        line.nonul ((List.dropWhile_sublist _).subset
          ((List.dropWhile_sublist _).subset ((List.dropWhile_sublist _).subset h)))⟩)
  advances line h := by
    obtain ⟨b, hb⟩ := line
    cases b with
    | nil => exact absurd rfl h
    | cons c cs =>
      simp only [CString.length, List.length_cons]
      have hle : ∀ (p : UInt8 → Bool) (l : Bytes), (l.dropWhile p).length ≤ l.length :=
        fun p l => (List.dropWhile_sublist p).length_le
      cases hc : isBlank c
      · have := hle isBlank (cs.dropWhile fun c => !isBlank c)
        have := hle (fun c => !isBlank c) cs
        simp [hc]; omega
      · have := hle isBlank ((cs.dropWhile isBlank).dropWhile fun c => !isBlank c)
        have := hle (fun c => !isBlank c) (cs.dropWhile isBlank)
        have := hle isBlank cs
        simp [hc]; omega

/-! ## `asp_net_enable_t` -/

/-- mirrors mod/mod_aspdotnet.cpp:195-201 -/
def ASPNET_OFF : Nat := 0
def ASPNET_UNSET : Nat := 2 ^^^ 0
def ASPNET_FILES : Nat := 2 ^^^ 1
def ASPNET_DIRS : Nat := 2 ^^^ 2
def ASPNET_VIRTUAL : Nat := 2 ^^^ 3

/-- `asp_net_dirconf_t`; mirrors mod/mod_aspdotnet.cpp:203-205 -/
structure Dirconf where
  enable : Nat
  deriving DecidableEq, Repr

/-- mirrors mod/mod_aspdotnet.cpp:207-213 -/
def createAspNetDirconf : Dirconf := ⟨ASPNET_UNSET⟩

/-! ## `set_aspnet_enable` -/

/-- One word of the argument: the new flags, `none` when the word is not
recognised. mirrors mod/mod_aspdotnet.cpp:237-253 -/
def toggle (enable : Nat) (word : CString) : Option Nat :=
  if strcasecmp word.val (lit "on") = 0 ∨ strcasecmp word.val (lit "all") = 0 then
    some (ASPNET_FILES ||| ASPNET_DIRS ||| ASPNET_VIRTUAL)
  else if strcasecmp word.val (lit "off") = 0 ∨ strcasecmp word.val (lit "none") = 0 then
    some ASPNET_OFF
  else if strcasecmp word.val (lit "files") = 0 then some (enable ||| ASPNET_FILES)
  else if strcasecmp word.val (lit "dirs") = 0 ∨ strcasecmp word.val (lit "directories") = 0 then
    some (enable ||| ASPNET_DIRS)
  else if strcasecmp word.val (lit "virtual") = 0 then some (enable ||| ASPNET_VIRTUAL)
  else none

/-- The `while (*enables)` loop: the flags it leaves and, when a word is not
recognised, the text returned to httpd (the flags so far stay stored).
mirrors mod/mod_aspdotnet.cpp:232-255 -/
def enableLoop (G : GetwordConf) (enables : CString) (enable : Nat) : Nat × Option Bytes :=
  if _h : enables.val = [] then (enable, none)
  else
    match toggle enable (G.next enables).1 with
    | some enable' => enableLoop G (G.next enables).2 enable'
    | none => (enable, some (lit "Unrecognized AspNet option " ++ (G.next enables).1.val))
termination_by enables.length
decreasing_by exact G.advances enables _h

/-- mirrors mod/mod_aspdotnet.cpp:226-256 -/
def setAspnetEnable (G : GetwordConf) (enables : CString) : Dirconf × Option Bytes :=
  (⟨(enableLoop G enables ASPNET_OFF).1⟩, (enableLoop G enables ASPNET_OFF).2)

/-- The words `ap_getword_conf` finds in a line. -/
def words (G : GetwordConf) (line : CString) : List CString :=
  if _h : line.val = [] then []
  else (G.next line).1 :: words G (G.next line).2
termination_by line.length
decreasing_by exact G.advances line _h

/-- The fold the loop performs over a list of words. -/
def toggleAll : Nat → List CString → Nat × Option Bytes
  | enable, [] => (enable, none)
  | enable, w :: ws =>
    match toggle enable w with
    | some enable' => toggleAll enable' ws
    | none => (enable, some (lit "Unrecognized AspNet option " ++ w.val))

theorem enableLoop_eq_fold (G : GetwordConf) (enables : CString) (enable : Nat) :
    enableLoop G enables enable = toggleAll enable (words G enables) := by
  induction hn : enables.length using Nat.strongRecOn generalizing enables enable with
  | ind n ih =>
    rw [enableLoop, words]
    by_cases h : enables.val = []
    · simp only [h, dite_true, toggleAll]
    · simp only [h, dite_false, toggleAll]
      cases toggle enable (G.next enables).1 with
      | none => rfl
      | some enable' => exact ih _ (hn ▸ G.advances enables h) _ _ rfl

theorem setAspnetEnable_eq_fold (G : GetwordConf) (enables : CString) :
    setAspnetEnable G enables =
      (⟨(toggleAll ASPNET_OFF (words G enables)).1⟩, (toggleAll ASPNET_OFF (words G enables)).2) := by
  simp only [setAspnetEnable, enableLoop_eq_fold]

/-- What the flags can be once a directive was read: none of the three words
that add a class sets the bit of `ASPNET_UNSET` alone. -/
def Settable (enable : Nat) : Prop :=
  enable = ASPNET_OFF ∨ enable = ASPNET_VIRTUAL ∨ enable = ASPNET_FILES

theorem settable_toggle {enable enable' : Nat} {w : CString} (h : Settable enable)
    (ht : toggle enable w = some enable') : Settable enable' := by
  unfold toggle at ht
  rcases h with rfl | rfl | rfl <;> repeat' (split at ht)
  all_goals cases ht
  all_goals simp [Settable, ASPNET_OFF, ASPNET_VIRTUAL, ASPNET_FILES, ASPNET_DIRS]

theorem settable_toggleAll : ∀ (ws : List CString) (enable : Nat), Settable enable →
    Settable (toggleAll enable ws).1
  | [], _, h => h
  | w :: ws, enable, h => by
    unfold toggleAll
    split
    · rename_i enable' ht; exact settable_toggleAll ws enable' (settable_toggle h ht)
    · exact h

/-- A directive, recognised or not, never leaves `ASPNET_UNSET`. -/
theorem enable_ne_unset (G : GetwordConf) (enables : CString) :
    (setAspnetEnable G enables).1.enable ≠ ASPNET_UNSET := by
  rw [setAspnetEnable_eq_fold]
  have h := settable_toggleAll (words G enables) ASPNET_OFF (.inl rfl)
  simp only
  rcases h with h | h | h <;> rw [h] <;> decide

end ModAspNet.L2.DirConf
