import ModAspNet.L7Installer.VerifyPath

/-!
# The rows of the combo box

`ResolveApacheInstances` offers every installation it finds in the combo box,
numbered by `wrk.index`; `tryAddPath` offers a path the user has chosen. Each has
a `wrk` of its own, and begins to count at 0.

* `addHits_numbered`: the rows of the search have numbers of their own;
  `addHits_index`: an `int` has them all, with fewer than 2^31 installations.
* `visit_rows`: what one `VerifyApachePath` adds.
* `own_numbers_iff`: all rows have numbers of their own, and every path verified
  is listed, exactly when a path not listed yet finds the number 1 free.
-/
namespace ModAspNet.L7.ComboRows

open ModAspNet.L1.CStr ModAspNet.L7.QuickSearch ModAspNet.L7.VerifyPath

/-! ## `ResolveApacheInstances` -/

/-- What MSI answers to the calls of `ResolveApacheInstances`; `row k` to those
of the `k`-th `cbResolver`. -/
structure SearchAnswers where
  getActiveDatabase : Bool
  openView : Bool
  row : Nat → RowAnswers

/-- The calls of `cbResolver` from the `k`-th on. -/
def addHits {Attr : Type} (row : Nat → RowAnswers) : Nat → List (Hit Attr) → Session → Int → Session × Int
  | _, [], m, index => (m, index)
  | k, hit :: hits, m, index =>
    let (m, index) := addRow (row k) (cstr hit.dir) index m
    addHits row (k + 1) hits m index

/-- mirrors msi_dll/resolve_apache.c:73-100 -/
def resolveApacheInstances {Attr : Type} (d : Disk Attr) (getLogicalDrives : UInt32) (stack : Stack) (a : SearchAnswers)
    (m : Session) : Option Session :=
  if !a.getActiveDatabase then some m
  else
    let m := { m with badPath := one }
    if !a.openView then some m
    else do
      let s ← drsearch d (cbResolver fun hits => (a.row hits.length).createRecord) chkfile 3 getLogicalDrives stack.val
      some (addHits a.row 1 s.hits m 0).1

/-! ## Installer sessions -/

/-- The user has chosen `value`, and `VerifyApachePath` is called. -/
structure Visit where
  value : CString
  answers : Answers
  getFileAttributesEx : CString → Bool
  stack : Stack

def Visit.step (m : Session) (v : Visit) : Option Session :=
  verifyApachePath v.answers v.getFileAttributesEx v.stack.val { m with INSTALLDIR := v.value }

def visits (m : Session) : List Visit → Option Session
  | [] => some m
  | v :: vs => (v.step m).bind fun m' => visits m' vs

/-- Before the first action: the properties, and the rows of the package. -/
def fresh (INSTALLDIR badPath : CString) (comboBox : List Row) : Session := ⟨INSTALLDIR, badPath, none, comboBox, []⟩

/-- The path chosen is that of an installation. -/
def Visit.Valid (v : Visit) : Prop := Present v.answers v.getFileAttributesEx v.value

/-- The path to be listed. -/
def Visit.path (v : Visit) : CString := installPath v.value

/-- The row `tryAddPath` makes for it. -/
def Visit.row (v : Visit) : Row := ⟨combo, 1, v.path⟩

/-- The combo box offers the path. -/
def Listed (m : Session) (path : CString) : Prop := ∃ r ∈ m.comboBox, r.Property = combo ∧ r.Value = path

/-- No two rows for different paths have the same key. -/
def OwnKeys (rows : List Row) : Prop := ∀ r ∈ rows, ∀ r' ∈ rows, r.key = r'.key → r.Value = r'.Value

/-- From `m` on: the rows inserted have keys of their own at every point, and
every path verified is listed then. -/
structure OwnNumbers (m : Session) (vs : List Visit) : Prop where
  keys : ∀ done, done <+: vs → ∀ m', visits m done = some m' → OwnKeys m'.inserted
  listed : ∀ done v, done ++ [v] <+: vs → ∀ m', visits m (done ++ [v]) = some m' → v.Valid → Listed m' v.path

/-- `tryAddPath` gets as far as `MsiViewModify`. -/
def Visit.offers (v : Visit) : Bool :=
  v.answers.getActiveDatabase && v.answers.openView && v.answers.viewFetch == .noMoreItems &&
    v.answers.row.createRecord

/-- The row is offered, and MSI takes it. -/
def Taken (m : Session) (v : Visit) : Prop :=
  v.offers = true ∧ v.answers.row.viewModify = true ∧ KeyFree m.comboBox v.row

/-- A path is offered only where no other path was offered with the number 1,
and unless it is listed it is offered, and MSI takes it. -/
def CarefulVisit (m : Session) (v : Visit) : Prop :=
  v.Valid → (v.offers = true → ∀ r ∈ m.inserted, r.key = v.row.key → r.Value = v.path) ∧
    (Listed m v.path ∨ Taken m v)

/-- Every visit that stays inside its array is careful. -/
def Careful (m : Session) (vs : List Visit) : Prop :=
  ∀ done v, done ++ [v] <+: vs → ∀ m', visits m done = some m' → (v.step m').isSome → CarefulVisit m' v

/-! ## The rows of the search -/

/-- The rows have numbers up to `index`, each a greater one than those before. -/
structure Numbered (rows : List Row) (index : Int) : Prop where
  le : ∀ r ∈ rows, r.Order ≤ index
  increasing : rows.Pairwise fun r r' => r.Order < r'.Order

theorem Numbered.ownKeys {rows : List Row} {index : Int} (h : Numbered rows index) : OwnKeys rows := by
  have hlt : rows.Pairwise fun r r' => r.key = r'.key → r.Value = r'.Value :=
    h.increasing.imp fun hlt hkey => absurd (congrArg Prod.snd hkey) (Int.ne_of_lt hlt)
  intro r hr r' hr'
  exact hlt.forall_of_forall_of_flip (fun _ _ _ => rfl) (hlt.imp fun h hkey => (h hkey.symm).symm) hr hr'

/-- What a record made adds to the rows. -/
theorem addRow_rows {a : RowAnswers} (h : a.createRecord = true) (path : CString) (index : Int) (m : Session) :
    (addRow a path index m).1.inserted = m.inserted ++ [⟨combo, index + 1, path⟩] ∧
      (addRow a path index m).1.comboBox =
        (if a.viewModify = true ∧ KeyFree m.comboBox ⟨combo, index + 1, path⟩ then
          m.comboBox ++ [⟨combo, index + 1, path⟩] else m.comboBox) ∧
      (addRow a path index m).2 = index + 1 := by
  unfold addRow msiViewModify
  rw [h]
  by_cases hi : index = 0 <;> simp [hi]

theorem addRow_none {a : RowAnswers} (h : a.createRecord = false) (path : CString) (index : Int) (m : Session) :
    addRow a path index m = (m, index) := by
  unfold addRow
  rw [h]
  rfl

/-- One hit: a number for its row only. -/
theorem addRow_numbered (a : RowAnswers) (path : CString) {index : Int} {m : Session} (h : Numbered m.inserted index) :
    Numbered (addRow a path index m).1.inserted (addRow a path index m).2 := by
  cases hrec : a.createRecord with
  | false =>
    rw [addRow_none hrec]
    exact h
  | true =>
    obtain ⟨hrows, -, hindex⟩ := addRow_rows hrec path index m
    rw [hrows, hindex]
    refine ⟨fun r hr => ?_, List.pairwise_append.mpr ⟨h.increasing, List.pairwise_singleton _ _, fun r hr r' hr' => ?_⟩⟩
    · rcases List.mem_append.mp hr with hr | hr
      · exact Int.le_add_one (h.le r hr)
      · exact Int.le_of_eq (congrArg Row.Order (List.mem_singleton.mp hr))
    · rw [List.mem_singleton.mp hr']
      exact Int.lt_add_one_of_le (h.le r hr)

theorem addHits_numbered {Attr : Type} (row : Nat → RowAnswers) : ∀ (hits : List (Hit Attr)) (k : Nat) {index : Int}
    {m : Session}, Numbered m.inserted index →
      Numbered (addHits row k hits m index).1.inserted (addHits row k hits m index).2
  | [], _, _, _, h => h
  | hit :: hits, k, _, _, h => addHits_numbered row hits (k + 1) (addRow_numbered (row k) (cstr hit.dir) h)

/-- `wrk->index` is at most the number of installations found. -/
theorem addHits_index {Attr : Type} (row : Nat → RowAnswers) : ∀ (hits : List (Hit Attr)) (k : Nat) {index : Int}
    (m : Session), index ≤ (addHits row k hits m index).2 ∧ (addHits row k hits m index).2 ≤ index + hits.length
  | [], _, index, _ => ⟨Int.le_refl index, by simp [addHits]⟩
  | hit :: hits, k, index, m => by
    have hone : index ≤ (addRow (row k) (cstr hit.dir) index m).2 ∧
        (addRow (row k) (cstr hit.dir) index m).2 ≤ index + 1 := by
      cases hrec : (row k).createRecord with
      | false => rw [addRow_none hrec]; omega
      | true => rw [(addRow_rows hrec _ index m).2.2]; omega
    simp only [addHits, List.length_cons]
    generalize addRow (row k) (cstr hit.dir) index m = added at hone
    have hrest : added.2 ≤ (addHits row (k + 1) hits added.1 added.2).2 ∧
        (addHits row (k + 1) hits added.1 added.2).2 ≤ added.2 + hits.length := addHits_index row hits (k + 1) added.1
    omega

/-- With the table open, the search goes through, and `cbResolver` is called
for the installations found. -/
theorem resolve_found {Attr : Type} (d : Disk Attr) (getLogicalDrives : UInt32) (stack : Stack) {a : SearchAnswers}
    (hdb : a.getActiveDatabase = true) (hview : a.openView = true) (m : Session) :
    resolveApacheInstances d getLogicalDrives stack a m =
      some (addHits a.row 1 ((fixedRoots d getLogicalDrives 0 32).flatMap (searched d chkfile 3))
        { m with badPath := one } 0).1 := by
  obtain ⟨s, hs, hhits⟩ := drsearch_hits d httpd 3 getLogicalDrives
    (cbResolver fun hits => (a.row hits.length).createRecord) stack fun _ _ _ => by decide
  have hsearch : drsearch d (cbResolver fun hits => (a.row hits.length).createRecord) chkfile 3 getLogicalDrives
    stack.val = some s := hs
  have hfound : s.hits = (fixedRoots d getLogicalDrives 0 32).flatMap (searched d chkfile 3) := hhits
  unfold resolveApacheInstances
  rw [hdb, hview, ← hfound]
  simp [hsearch]

/-- In any case the rows have numbers of their own. -/
theorem resolve_ownKeys {Attr : Type} (d : Disk Attr) (getLogicalDrives : UInt32) (stack : Stack) (a : SearchAnswers)
    {m : Session} (h : m.inserted = []) :
    ∃ m', resolveApacheInstances d getLogicalDrives stack a m = some m' ∧ OwnKeys m'.inserted := by
  have hnone : Numbered m.inserted 0 := by
    rw [h]
    exact ⟨by simp, List.Pairwise.nil⟩
  cases hdb : a.getActiveDatabase with
  | false => exact ⟨m, by simp [resolveApacheInstances, hdb], hnone.ownKeys⟩
  | true =>
    cases hview : a.openView with
    | false => exact ⟨{ m with badPath := one }, by simp [resolveApacheInstances, hdb, hview], hnone.ownKeys⟩
    | true =>
      exact ⟨_, resolve_found d getLogicalDrives stack hdb hview m,
        (addHits_numbered a.row _ 1 (m := { m with badPath := one }) hnone).ownKeys⟩

/-! ## One visit -/

theorem offers_iff (v : Visit) : v.offers = true ↔ v.answers.getActiveDatabase = true ∧ v.answers.openView = true ∧
    v.answers.viewFetch = .noMoreItems ∧ v.answers.row.createRecord = true := by
  simp [Visit.offers, and_assoc]

/-- Without a call of `MsiViewModify` the rows stay as they are. -/
theorem tried_silent (v : Visit) (m : Session) (h : v.offers = false) :
    (tried v.answers v.path m).inserted = m.inserted ∧ (tried v.answers v.path m).comboBox = m.comboBox := by
  have hno := mt (offers_iff v).mpr (Bool.eq_false_iff.mp h)
  unfold tried
  cases hdb : v.answers.getActiveDatabase
  · exact ⟨rfl, rfl⟩
  · cases hview : v.answers.openView
    · exact ⟨rfl, rfl⟩
    · cases hfetch : v.answers.viewFetch with
      | success => exact ⟨rfl, rfl⟩
      | failed => exact ⟨rfl, rfl⟩
      | noMoreItems =>
        have hrec : v.answers.row.createRecord = false :=
          Bool.eq_false_iff.mpr fun hrec => hno ⟨hdb, hview, hfetch, hrec⟩
        simp [addRow_none hrec]

/-- With it, there is one row more to insert. -/
theorem tried_offering (v : Visit) (m : Session) (h : v.offers = true) :
    (tried v.answers v.path m).inserted = m.inserted ++ [v.row] ∧
      (tried v.answers v.path m).comboBox =
        if v.answers.row.viewModify = true ∧ KeyFree m.comboBox v.row then m.comboBox ++ [v.row] else m.comboBox := by
  obtain ⟨hdb, hview, hfetch, hrec⟩ := (offers_iff v).mp h
  obtain ⟨hinserted, hcombo, -⟩ := addRow_rows hrec v.path 0 { m with badPath := one }
  unfold tried
  rw [hdb, hview, hfetch]
  exact ⟨hinserted, hcombo⟩

/-- What a visit adds to the rows. -/
structure Visited (m : Session) (v : Visit) (m' : Session) : Prop where
  invalid : ¬ v.Valid → m'.inserted = m.inserted ∧ m'.comboBox = m.comboBox
  silent : v.Valid → v.offers = false → m'.inserted = m.inserted ∧ m'.comboBox = m.comboBox
  offering : v.Valid → v.offers = true → m'.inserted = m.inserted ++ [v.row] ∧
    m'.comboBox = if v.answers.row.viewModify = true ∧ KeyFree m.comboBox v.row then m.comboBox ++ [v.row] else m.comboBox

theorem visit_rows {m m' : Session} {v : Visit} (h : v.step m = some m') : Visited m v m' := by
  unfold Visit.step at h
  by_cases hfits : v.answers.getProperty = true ∧ v.value.length + sizeofChkfile ≤ MAX_PATH
  · have hne : v.value.val ≠ [] := by
      intro he
      rw [verify_empty _ _ _ hfits.1 he] at h
      cases h
    have hread : v.value.length < MAX_PATH := by
      have := hfits.2
      rw [sizeofChkfile_eq] at this
      omega
    rw [verify_fitting (m := { m with INSTALLDIR := v.value }) _ _ _ hfits.1 hne hfits.2] at h
    split at h
    · rename_i hfile
      have hvalid : v.Valid := ⟨⟨hfits.1, hread⟩, hfits.2, hfile⟩
      cases h
      refine ⟨fun hno => absurd hvalid hno, fun _ hoff => ?_, fun _ hoff => ?_⟩
      · simpa [Visit.path] using tried_silent v (msiSetTargetPath v.answers.setTargetPath v.path { m with INSTALLDIR := v.path }) hoff
      · simpa [Visit.path] using tried_offering v (msiSetTargetPath v.answers.setTargetPath v.path { m with INSTALLDIR := v.path }) hoff
    · rename_i hfile
      cases h
      have hno : ¬ v.Valid := fun hv => hfile hv.file
      exact ⟨fun _ => ⟨rfl, rfl⟩, fun hv => absurd hv hno, fun hv => absurd hv hno⟩
  · rw [verify_unfit (m := { m with INSTALLDIR := v.value }) _ _ _ hfits] at h
    cases h
    have hno : ¬ v.Valid := fun hv => hfits ⟨hv.readable.1, hv.fits⟩
    exact ⟨fun _ => ⟨rfl, rfl⟩, fun hv => absurd hv hno, fun hv => absurd hv hno⟩

theorem row_listed (v : Visit) {rows : List Row} (h : v.row ∈ rows) : ∃ r ∈ rows, r.Property = combo ∧ r.Value = v.path :=
  ⟨v.row, h, rfl, rfl⟩

/-- One row more keeps the keys apart exactly when no row for another path has
its key. -/
theorem ownKeys_append {rows : List Row} (h : OwnKeys rows) (row : Row) :
    OwnKeys (rows ++ [row]) ↔ ∀ r ∈ rows, r.key = row.key → r.Value = row.Value := by
  constructor
  · exact fun h' r hr hkey => h' r (List.mem_append_left _ hr) row (by simp) hkey
  · intro hrow r hr r' hr' hkey
    rcases List.mem_append.mp hr with hold | hnew <;> rcases List.mem_append.mp hr' with hold' | hnew'
    · exact h r hold r' hold' hkey
    · obtain rfl := List.mem_singleton.mp hnew'
      exact hrow r hold hkey
    · obtain rfl := List.mem_singleton.mp hnew
      exact (hrow r' hold' hkey.symm).symm
    · rw [List.mem_singleton.mp hnew, List.mem_singleton.mp hnew']

/-- A visit keeps the keys apart, and lists a valid path, exactly when it is careful. -/
theorem visit_iff {m m' : Session} {v : Visit} (h : OwnKeys m.inserted) (hs : v.step m = some m') :
    OwnKeys m'.inserted ∧ (v.Valid → Listed m' v.path) ↔ CarefulVisit m v := by
  have hrows := visit_rows hs
  unfold CarefulVisit
  by_cases hv : v.Valid
  · cases hoff : v.offers with
    | false =>
      obtain ⟨hi, hc⟩ := hrows.silent hv hoff
      have hnot : ¬ Taken m v := fun ht => by have := ht.1; rw [hoff] at this; cases this
      unfold Listed
      rw [hi, hc]
      simp [h, hv, hnot]
    | true =>
      obtain ⟨hi, hc⟩ := hrows.offering hv hoff
      rw [hi, ownKeys_append h]
      unfold Listed
      rw [hc]
      constructor
      · rintro ⟨hkeys, hlisted⟩ -
        refine ⟨fun _ => hkeys, ?_⟩
        by_cases htaken : v.answers.row.viewModify = true ∧ KeyFree m.comboBox v.row
        · exact .inr ⟨hoff, htaken⟩
        · rw [if_neg htaken] at hlisted
          exact .inl (hlisted hv)
      · intro hc
        obtain ⟨hkeys, hlisted⟩ := hc hv
        refine ⟨hkeys rfl, fun _ => ?_⟩
        rcases hlisted with ⟨r, hr, hrow⟩ | ⟨-, htaken⟩
        · split
          · exact ⟨r, List.mem_append_left _ hr, hrow⟩
          · exact ⟨r, hr, hrow⟩
        · rw [if_pos htaken]
          exact row_listed v (by simp)
  · obtain ⟨hi, -⟩ := hrows.invalid hv
    rw [hi]
    exact ⟨fun _ hv' => absurd hv' hv, fun _ => ⟨h, fun hv' => absurd hv' hv⟩⟩

/-! ## Sessions -/

theorem visits_snoc : ∀ {done : List Visit} {v : Visit} {m m' : Session}, visits m (done ++ [v]) = some m' ↔
    ∃ m₁, visits m done = some m₁ ∧ v.step m₁ = some m'
  | [], v, m, m' => by simp [visits]
  | u :: done, v, m, m' => by
    simp only [List.cons_append, visits, Option.bind_eq_some_iff, visits_snoc]
    constructor
    · rintro ⟨m₁, hu, m₂, hd, hv⟩; exact ⟨m₂, ⟨m₁, hu, hd⟩, hv⟩
    · rintro ⟨m₂, ⟨m₁, hu, hd⟩, hv⟩; exact ⟨m₁, hu, m₂, hd, hv⟩

/-- While the visits are careful, the keys stay apart. -/
theorem visits_ownKeys {m : Session} (h : OwnKeys m.inserted) {vs : List Visit} (hc : Careful m vs) :
    ∀ done, done <+: vs → ∀ m', visits m done = some m' → OwnKeys m'.inserted := by
  intro done
  induction done using List.reverseRecOn with
  | nil => intro _ m' hm'; cases hm'; exact h
  | append_singleton done v ih =>
    intro hpre m' hm'
    obtain ⟨m₁, hm₁, hv⟩ := visits_snoc.mp hm'
    have hkeys := ih ((List.prefix_append done [v]).trans hpre) m₁ hm₁
    exact ((visit_iff hkeys hv).mpr (hc done v hpre m₁ hm₁ (by rw [hv]; rfl))).1

theorem ownNumbers_iff {m : Session} (h : OwnKeys m.inserted) (vs : List Visit) : OwnNumbers m vs ↔ Careful m vs := by
  constructor
  · intro hown done v hpre m₁ hm₁ hsome
    obtain ⟨m', hv⟩ := Option.isSome_iff_exists.mp hsome
    have hm' := visits_snoc.mpr ⟨m₁, hm₁, hv⟩
    have hkeys := hown.keys done ((List.prefix_append done [v]).trans hpre) m₁ hm₁
    exact (visit_iff hkeys hv).mp ⟨hown.keys _ hpre m' hm', hown.listed done v hpre m' hm'⟩
  · intro hc
    refine ⟨visits_ownKeys h hc, fun done v hpre m' hm' => ?_⟩
    obtain ⟨m₁, hm₁, hv⟩ := visits_snoc.mp hm'
    have hkeys := visits_ownKeys h hc done ((List.prefix_append done [v]).trans hpre) m₁ hm₁
    exact ((visit_iff hkeys hv).mpr (hc done v hpre m₁ hm₁ (by rw [hv]; rfl))).2

/-- For every disk, every answer of MSI, every table of the package and every
sequence of visits: the search goes through, and after it the rows inserted have
keys of their own and the paths verified are listed exactly when the visits are
careful. -/
theorem own_numbers_iff {Attr : Type} (d : Disk Attr) (getLogicalDrives : UInt32) (stack : Stack) (a : SearchAnswers)
    (INSTALLDIR badPath : CString) (comboBox : List Row) (vs : List Visit) :
    ∃ m, resolveApacheInstances d getLogicalDrives stack a (fresh INSTALLDIR badPath comboBox) = some m ∧
      (OwnNumbers m vs ↔ Careful m vs) := by
  obtain ⟨m, hm, hkeys⟩ := resolve_ownKeys d getLogicalDrives stack a (m := fresh INSTALLDIR badPath comboBox) rfl
  exact ⟨m, hm, ownNumbers_iff hkeys vs⟩

/-- MSI does what the search asks. -/
def willingSearch : SearchAnswers := ⟨true, true, fun _ => ⟨true, true, true⟩⟩

/-- Another installation, chosen by hand. -/
def otherPath : Visit := ⟨⟨lit "C:\\Other", by decide⟩, willing, fun _ => true, clearedStack⟩

/-- The search finds `A:\Apache\`; it has the number 1, and so has the path chosen. -/
theorem chosen_path_refused : ¬ ∀ (Attr : Type) (d : Disk Attr) (getLogicalDrives : UInt32) (stack : Stack)
    (a : SearchAnswers) (INSTALLDIR badPath : CString) (comboBox : List Row) (vs : List Visit),
    ∃ m, resolveApacheInstances d getLogicalDrives stack a (fresh INSTALLDIR badPath comboBox) = some m ∧
      OwnNumbers m vs := by
  intro h
  obtain ⟨m, hm, hown⟩ := h Unit apacheDisk 1 clearedStack willingSearch one one [] [otherPath]
  rw [resolve_found apacheDisk 1 clearedStack rfl rfl] at hm
  have hrows : m.inserted = [⟨combo, 1, ⟨lit "A:\\Apache\\", by decide⟩⟩] := by
    cases hm
    rfl
  have hvalid : otherPath.Valid := ⟨⟨rfl, by decide⟩, by decide, rfl⟩
  have hne : otherPath.value.val ≠ [] := by decide
  obtain ⟨m', hvisit⟩ : ∃ m', otherPath.step m = some m' :=
    ⟨_, (verify_fitting (m := { m with INSTALLDIR := otherPath.value }) willing (fun _ => true) clearedStack rfl
      hne hvalid.fits).trans (if_pos rfl)⟩
  have hrun : visits m ([] ++ [otherPath]) = some m' := visits_snoc.mpr ⟨m, rfl, hvisit⟩
  have hkeys := hown.keys [otherPath] (List.prefix_refl _) m' hrun
  rw [((visit_rows hvisit).offering hvalid rfl).1, hrows] at hkeys
  have hsame := hkeys _ List.mem_cons_self otherPath.row (by simp) rfl
  revert hsame
  decide

end ModAspNet.L7.ComboRows
