import AcpiTables.AmlReference
import AcpiTables.DsdtTree

/-!
# Namestrings read back

Which names survive being written as a namestring. The reader is that of the
grammar, for any notion of a segment: four arbitrary bytes, or only the characters
that a name may have. `readsBack_iff` gives the exact condition for each notion.

What a path checks is the length of its segments. It does not check how many there
are, though they are counted in a byte, and it does not check what a segment that
stands alone begins with, though a reader takes some bytes for something else.
-/

namespace AcpiTables

open Reader

/-! ## The reader -/

section

variable (isSeg : Bytes → Bool)

/-- Four bytes that are a segment. -/
def nameSegOf : Reader UInt8 Bytes := filter isSeg (take 4)

/-- `NamePath`. -/
def namePathOf : Reader UInt8 (List Bytes)
  | 0x00 :: s => some ([], s)
  | 0x2e :: s => count (nameSegOf isSeg) 2 s
  | 0x2f :: n :: s => count (nameSegOf isSeg) n.toNat s
  | s => count (nameSegOf isSeg) 1 s

/-- `NameString`. -/
def nameStringOf : Reader UInt8 NameString
  | 0x5c :: s => map (fun segs => ⟨true, 0, segs⟩) (namePathOf isSeg) s
  | s =>
    let parents := (s.takeWhile (· == 0x5e)).length
    map (fun segs => ⟨false, parents, segs⟩) (namePathOf isSeg) (s.drop parents)

end

/-- With the characters of the grammar, it is the reader of the grammar. -/
theorem nameStringOf_isNameSeg : nameStringOf isNameSeg = nameString := rfl

section

variable {isSeg : Bytes → Bool} {s r : Bytes} {segs : List Bytes}

/-- What a run of segments consumes and gives. -/
theorem count_nameSegOf {n : ℕ} (h : count (nameSegOf isSeg) n s = some (segs, r)) :
    segs.length = n ∧ s.length = 4 * n + r.length ∧ ∀ seg ∈ segs, isSeg seg = true := by
  induction n generalizing s segs with
  | zero =>
    obtain ⟨rfl, rfl⟩ := Prod.mk.inj (Option.some.inj h)
    simp
  | succ n ih =>
    rw [count, List.replicate_succ, each] at h
    obtain ⟨x, hx, rfl⟩ := map_eq_some.mp h
    obtain ⟨s', hseg, hrest⟩ := seq_eq_some.mp hx
    obtain ⟨hlength, hconsumed, hall⟩ := ih hrest
    obtain ⟨htake, hok⟩ := Option.filter_eq_some_iff.mp hseg
    have hfour : s.length = 4 + s'.length := by
      unfold take at htake
      split at htake
      · obtain ⟨-, rfl⟩ := Prod.mk.inj (Option.some.inj htake)
        rw [List.length_drop]
        omega
      · cases htake
    refine ⟨by rw [List.length_cons, hlength], by omega, ?_⟩
    exact List.forall_mem_cons.mpr ⟨hok, hall⟩

/-- Whatever is read has segments only, and no more than a byte can count. -/
theorem namePathOf_sound (h : namePathOf isSeg s = some (segs, r)) :
    segs.length ≤ 255 ∧ ∀ seg ∈ segs, isSeg seg = true := by
  unfold namePathOf at h
  split at h
  · obtain ⟨rfl, -⟩ := Prod.mk.inj (Option.some.inj h)
    simp
  · obtain ⟨hlength, -, hall⟩ := count_nameSegOf h
    exact ⟨by omega, hall⟩
  · next n _ =>
    obtain ⟨hlength, -, hall⟩ := count_nameSegOf h
    have := n.toNat_lt
    exact ⟨by omega, hall⟩
  · obtain ⟨hlength, -, hall⟩ := count_nameSegOf h
    exact ⟨by omega, hall⟩

/-- A name that is read has at most 255 segments, each of them accepted. -/
theorem nameStringOf_sound {name : NameString} (h : nameStringOf isSeg s = some (name, r)) :
    name.segs.length ≤ 255 ∧ ∀ seg ∈ name.segs, isSeg seg = true := by
  unfold nameStringOf at h
  split at h
  · obtain ⟨segs, hpath, rfl⟩ := map_eq_some.mp h
    exact namePathOf_sound hpath
  · obtain ⟨segs, hpath, rfl⟩ := map_eq_some.mp h
    exact namePathOf_sound hpath

/-- Accepted segments are read back, one after the other. -/
theorem settles_segsOf {l : List (Vector UInt8 4)} (h : ∀ part ∈ l, isSeg part.toList = true) :
    Settles (count (nameSegOf isSeg) l.length) (l.flatMap Vector.toList) (l.map Vector.toList)
      True := by
  have hparts : ∀ part ∈ l, Settles (nameSegOf isSeg) part.toList part.toList True :=
    fun part hpart => (settles_take (Vector.length_toList ..)).filter (h part hpart)
  exact (settles_count l hparts).congr (by simp)

/-! ## Paths -/

/-- The bytes that a reader of a name path does not take for a segment's first. -/
def isPathPrefix (b : UInt8) : Bool := b == 0x00 || b == 0x2e || b == 0x2f

/-- The bytes that a reader of a namestring takes for what precedes the path. -/
def isRootPrefix (b : UInt8) : Bool := b == 0x5c || b == 0x5e

/-- Without a prefix a name path is one segment, whatever segments are accepted. -/
theorem namePathOf_cons {b : UInt8} (h : isPathPrefix b = false) (s : Bytes) :
    namePathOf isSeg (b :: s) = count (nameSegOf isSeg) 1 (b :: s) := by
  unfold namePathOf
  split
  · next heq =>
    rw [(List.cons.inj heq).1] at h
    cases h
  · next heq =>
    rw [(List.cons.inj heq).1] at h
    cases h
  · next heq =>
    rw [(List.cons.inj heq).1] at h
    cases h
  · rfl

/-- A prefix in front of a segment that stands alone hides the segment. -/
theorem namePathOf_prefix_ne {b : UInt8} {s : Bytes} (h : isPathPrefix b = true)
    (hlength : s.length = 3) : namePathOf isSeg (b :: s) ≠ some ([b :: s], []) := by
  intro hread
  simp only [isPathPrefix, Bool.or_eq_true, beq_iff_eq] at h
  rcases h with (rfl | rfl) | rfl
  · cases (Prod.mk.inj (Option.some.inj hread)).1
  · exact absurd (count_nameSegOf hread).1 (by simp)
  · obtain ⟨n, s, rfl⟩ := List.exists_cons_of_length_eq_add_one hlength
    -- one segment is counted, of four bytes, and only two are left
    obtain ⟨hone, hconsumed, -⟩ := count_nameSegOf hread
    simp only [List.length_cons, List.length_nil] at hone hlength hconsumed
    omega

/-- A path whose segment, if it stands alone, is not taken for something else. -/
structure Path.Unmistakable (path : Path) : Prop where
  path_prefix : ∀ part, path.nameParts = [part] →
    ∀ b ∈ part.toList.head?, isPathPrefix b = false
  root_prefix : ∀ part, path.nameParts = [part] → path.root = false →
    ∀ b ∈ part.toList.head?, isRootPrefix b = false

/-- A path is read back: its segments are accepted, and a single one does not start
like a prefix. -/
theorem settles_namePathOf {l : List (Vector UInt8 4)} (hne : l ≠ []) (hlen : l.length ≤ 255)
    (h : ∀ part ∈ l, isSeg part.toList = true)
    (hlead : ∀ part, l = [part] → ∀ b ∈ part.toList.head?, isPathPrefix b = false) :
    Settles (namePathOf isSeg) (segCountPrefix l.length ++ l.flatMap Vector.toList)
      (l.map Vector.toList) True := by
  have hsegs := settles_segsOf h
  refine .of_reads fun r => ?_
  match l, hne with
  | [x], _ =>
    have hlength : x.toList.length = 4 := Vector.length_toList ..
    obtain ⟨b, s, hx⟩ := List.exists_cons_of_length_eq_add_one hlength
    have hb := hlead x rfl b (by rw [hx]; rfl)
    have := hsegs.reads trivial r
    simp only [segCountPrefix, List.flatMap_singleton, List.nil_append, List.length_singleton, hx,
      List.cons_append] at this ⊢
    rw [namePathOf_cons hb]
    exact this
  | [x, y], _ => exact hsegs.reads trivial r
  | x :: y :: z :: l, _ =>
    have hn : (UInt8.ofNat (x :: y :: z :: l).length).toNat = (x :: y :: z :: l).length := by
      rw [UInt8.toNat_ofNat']
      omega
    have := hsegs.reads trivial r
    rw [← hn] at this
    exact this

/-- Two or more segments start with a prefix of their own. -/
theorem head_segCount_of_two {l : List (Vector UInt8 4)} (h : 2 ≤ l.length) :
    ∃ b s, segCountPrefix l.length ++ l.flatMap Vector.toList = b :: s ∧
      isRootPrefix b = false := by
  match l with
  | [x, y] => exact ⟨0x2e, _, rfl, rfl⟩
  | x :: y :: z :: l => exact ⟨0x2f, _, rfl, rfl⟩

/-- A name that starts with no root or parent prefix is a name path. -/
theorem nameStringOf_cons {b : UInt8} (h : isRootPrefix b = false) (s : Bytes) :
    nameStringOf isSeg (b :: s) =
      map (fun segs => ⟨false, 0, segs⟩) (namePathOf isSeg) (b :: s) := by
  rw [isRootPrefix, Bool.or_eq_false_iff] at h
  unfold nameStringOf
  split
  · next heq =>
    rw [(List.cons.inj heq).1] at h
    cases h.1
  · simp [h.2]

end

section

variable {isSeg : Bytes → Bool} {path : Path}

/-- The bytes of a path of one segment. -/
theorem Path.exists_encode_single {part : Vector UInt8 4} (h : path.nameParts = [part]) :
    ∃ b s, part.toList = b :: s ∧ s.length = 3 ∧
      path.encode = (if path.root then [0x5c] else []) ++ b :: s ∧
      path.nameString = ⟨path.root, 0, [b :: s]⟩ := by
  have hlength : part.toList.length = 4 := Vector.length_toList ..
  obtain ⟨b, s, hpart⟩ := List.exists_cons_of_length_eq_add_one hlength
  rw [hpart] at hlength
  refine ⟨b, s, hpart, Nat.succ.inj hlength, ?_, ?_⟩
  · rw [Path.encode, h, List.flatMap_singleton, hpart]
    simp [segCountPrefix]
  · rw [Path.nameString, h, List.map_singleton, hpart]

/-- What is read back was not mistaken. -/
theorem Path.unmistakable_of_reads
    (h : nameStringOf isSeg path.encode = some (path.nameString, [])) : path.Unmistakable := by
  have hroot : ∀ part, path.nameParts = [part] → path.root = false →
      ∀ b ∈ part.toList.head?, isRootPrefix b = false := by
    intro part hpart hroot b' hb
    obtain ⟨b, s, hbytes, -, hencode, hname⟩ := Path.exists_encode_single hpart
    rw [hbytes] at hb
    obtain rfl : b = b' := Option.some.inj hb
    rw [hencode, hname, hroot] at h
    rw [isRootPrefix, Bool.or_eq_false_iff]
    constructor
    · -- taken for the root
      by_contra hne
      rw [Bool.not_eq_false, beq_iff_eq] at hne
      subst hne
      obtain ⟨segs, -, hsegs⟩ := map_eq_some.mp h
      cases (NameString.mk.inj hsegs).1
    · -- taken for the parent
      by_contra hne
      rw [Bool.not_eq_false, beq_iff_eq] at hne
      subst hne
      obtain ⟨segs, -, hsegs⟩ := map_eq_some.mp h
      exact absurd (NameString.mk.inj hsegs).2.1 (by simp)
  refine ⟨fun part hpart b' hb => ?_, hroot⟩
  obtain ⟨b, s, hbytes, hlength, hencode, hname⟩ := Path.exists_encode_single hpart
  have hlead := hroot part hpart
  rw [hbytes] at hb hlead
  obtain rfl : b = b' := Option.some.inj hb
  by_contra hprefix
  rw [Bool.not_eq_false] at hprefix
  refine namePathOf_prefix_ne hprefix hlength (?_ : namePathOf isSeg (b :: s) = _)
  rw [hencode, hname] at h
  cases hr : path.root with
  | true =>
    rw [hr] at h
    obtain ⟨segs, hread, hsegs⟩ := map_eq_some.mp h
    rwa [(NameString.mk.inj hsegs).2.2] at hread
  | false =>
    rw [hr] at h
    change nameStringOf isSeg (b :: s) = _ at h
    rw [nameStringOf_cons (hlead hr b rfl)] at h
    obtain ⟨segs, hread, hsegs⟩ := map_eq_some.mp h
    rwa [(NameString.mk.inj hsegs).2.2] at hread

/-- **Paths read back** exactly when their segments can be counted, are segments, and
are not mistaken for something else. -/
theorem Path.reads_iff (hne : path.nameParts ≠ []) :
    (∀ rest, nameStringOf isSeg (path.encode ++ rest) = some (path.nameString, rest)) ↔
      path.nameParts.length ≤ 255 ∧ (∀ part ∈ path.nameParts, isSeg part.toList = true) ∧
        path.Unmistakable := by
  constructor
  · intro h
    have hread := h []
    rw [List.append_nil] at hread
    obtain ⟨hlength, hall⟩ := nameStringOf_sound hread
    rw [Path.nameString, List.length_map] at hlength
    exact ⟨hlength, fun part hpart => hall _ (List.mem_map_of_mem hpart),
      Path.unmistakable_of_reads hread⟩
  · rintro ⟨hlength, hall, hlead⟩ rest
    have hpath := (settles_namePathOf hne hlength hall hlead.path_prefix).reads trivial rest
    rw [Path.encode, List.append_assoc (if path.root then _ else _), Path.nameString]
    cases hroot : path.root with
    | true => exact map_eq_some.mpr ⟨_, hpath, rfl⟩
    | false =>
      obtain ⟨b, s, hword, hb⟩ : ∃ b s,
          segCountPrefix path.nameParts.length ++ path.nameParts.flatMap Vector.toList = b :: s ∧
            isRootPrefix b = false := by
        rcases Nat.lt_or_ge 1 path.nameParts.length with htwo | hone
        · exact head_segCount_of_two htwo
        · obtain ⟨part, hpart⟩ := List.length_eq_one_iff.mp
            (Nat.le_antisymm hone (List.length_pos_iff.mpr hne))
          obtain ⟨b, s, hbytes, -⟩ := Path.exists_encode_single hpart
          refine ⟨b, s, by rw [hpart, List.flatMap_singleton, hbytes]; rfl, ?_⟩
          exact hlead.root_prefix part hpart hroot b (by rw [hbytes]; rfl)
      rw [hword] at hpath ⊢
      change nameStringOf isSeg (b :: (s ++ rest)) = _
      rw [nameStringOf_cons hb]
      exact map_eq_some.mpr ⟨_, hpath, rfl⟩

end

/-! ## Names -/

/-- The name starts with a backslash. -/
def isRooted (name : String) : Bool := name.toList.head? == some '\\'

/-- What lies between the dots of a name. -/
def segmentsOf (name : String) : List (List Char) :=
  (name.toList.drop (if isRooted name then 1 else 0)).splitOn '.'

/-- A part of a path holds the bytes of its segment. -/
theorem namePart_eq_ok {seg : List Char} {part : Vector UInt8 4}
    (h : Path.namePart seg = .ok part) : part.toList = segBytes seg := by
  unfold Path.namePart at h
  split at h
  · obtain rfl := Except.ok.inj h
    rfl
  · cases h

/-- The parts of a path hold the bytes of their segments. -/
theorem map_toList_of_mapM {segs : List (List Char)} {parts : List (Vector UInt8 4)}
    (h : segs.mapM Path.namePart = .ok parts) :
    parts.map Vector.toList = segs.map segBytes := by
  have hall := mapM_eq_ok h
  clear h
  induction hall with
  | nil => rfl
  | cons hpart _ ih => rw [List.map_cons, List.map_cons, namePart_eq_ok hpart, ih]

/-- The path of an accepted name. -/
theorem path_of_new {name : String} {path : Path} (h : Path.new name = .ok path) :
    path.root = isRooted name ∧
      path.nameParts.map Vector.toList = (segmentsOf name).map segBytes := by
  obtain ⟨parts, hparts, hpath⟩ := Checked.bind_eq_ok.mp h
  obtain rfl := Except.ok.inj hpath
  exact ⟨rfl, map_toList_of_mapM hparts⟩

/-- A path that is accepted has a part. -/
theorem nameParts_ne_nil_of_new {name : String} {path : Path} (h : Path.new name = .ok path) :
    path.nameParts ≠ [] := by
  intro hnil
  have hsegs := (path_of_new h).2
  rw [hnil, List.map_nil] at hsegs
  exact List.splitOn_ne_nil _ _ (List.map_eq_nil_iff.mp hsegs.symm)

/-- A segment that stands alone is the name. -/
theorem eq_of_segmentsOf {name : String} {seg : List Char} (h : segmentsOf name = [seg]) :
    name.toList.drop (if isRooted name then 1 else 0) = seg ∧ '.' ∉ seg := by
  have hname : name.toList.drop (if isRooted name then 1 else 0) = seg := by
    have hjoin := congrArg (List.intercalate ['.']) h
    rwa [segmentsOf, List.intercalate_splitOn, List.intercalate_singleton] at hjoin
  refine ⟨hname, fun hdot => ?_⟩
  obtain ⟨front, back, hsplit⟩ := List.append_of_mem hdot
  rw [segmentsOf, hname, hsplit, List.splitOn_append_cons_self] at h
  have hlength := congrArg List.length h
  have hfront := List.length_pos_iff.mpr (List.splitOn_ne_nil '.' front)
  have hback := List.length_pos_iff.mpr (List.splitOn_ne_nil '.' back)
  rw [List.length_append, List.length_singleton] at hlength
  omega

/-- Text begins with an ASCII byte exactly when it begins with its character. -/
theorem head_segBytes_iff {seg : List Char} {k : Char} (hk : k.toNat < 128) :
    (segBytes seg).head? = some (UInt8.ofNat k.toNat) ↔ seg.head? = some k := by
  have hbyte : (UInt8.ofNat k.toNat).toNat = k.toNat := by
    rw [UInt8.toNat_ofNat']
    omega
  cases seg with
  | nil => simp [segBytes]
  | cons c seg =>
    obtain ⟨b, s, hfirst⟩ := List.exists_cons_of_ne_nil (String.utf8EncodeChar_ne_nil (c := c))
    rw [segBytes, List.flatMap_cons, hfirst, List.cons_append, List.head?_cons, List.head?_cons,
      Option.some.injEq, Option.some.injEq]
    constructor
    · rintro rfl
      have hmem : UInt8.ofNat k.toNat ∈ String.utf8EncodeChar c := by
        rw [hfirst]
        exact List.mem_cons_self ..
      have hnat := toNat_of_mem_utf8EncodeChar (by omega) hmem
      exact Char.ext (UInt32.toNat_inj.mp (hnat.trans hbyte))
    · rintro rfl
      rw [utf8EncodeChar_of_ascii hk] at hfirst
      exact (List.cons.inj hfirst).1.symm

/-- The namestring that is written of a path reads back as the path, whatever
follows. -/
def ReadsBackPath (isSeg : Bytes → Bool) (path : Path) : Prop :=
  ∃ w, toAmlBytes path ([] : Bytes) = .ok w ∧
    ∀ rest, nameStringOf isSeg (w ++ rest) = some (path.nameString, rest)

/-- The only segment of a name begins with a character that no reader takes for
something else. -/
def LeadsSegment (name : String) : Prop :=
  ∀ seg, segmentsOf name = [seg] →
    seg.head? ≠ some '\x00' ∧ seg.head? ≠ some '/' ∧
      (isRooted name = false → seg.head? ≠ some '^')

/-- A path cannot be mistaken exactly when its text leads with a segment. -/
theorem unmistakable_iff {name : String} {path : Path} (h : Path.new name = .ok path) :
    path.Unmistakable ↔ LeadsSegment name := by
  obtain ⟨hroot, hparts⟩ := path_of_new h
  constructor
  · intro hpath seg hseg
    rw [hseg, List.map_singleton] at hparts
    obtain ⟨part, hpart, hbytes⟩ := List.map_eq_singleton_iff.mp hparts
    have hlead := hpath.path_prefix part hpart
    have hfirst := hpath.root_prefix part hpart
    rw [hbytes] at hlead hfirst
    refine ⟨fun hhead => ?_, fun hhead => ?_, fun hunrooted hhead => ?_⟩
    · exact absurd (hlead 0x00 ((head_segBytes_iff (by decide)).mpr hhead)) (by decide)
    · exact absurd (hlead 0x2f ((head_segBytes_iff (by decide)).mpr hhead)) (by decide)
    · exact absurd (hfirst (hroot.trans hunrooted) 0x5e ((head_segBytes_iff (by decide)).mpr hhead))
        (by decide)
  · intro hname
    have hsingle : ∀ part, path.nameParts = [part] →
        ∃ seg, segmentsOf name = [seg] ∧ part.toList = segBytes seg := by
      intro part hpart
      rw [hpart, List.map_singleton] at hparts
      obtain ⟨seg, hseg, hbytes⟩ := List.map_eq_singleton_iff.mp hparts.symm
      exact ⟨seg, hseg, hbytes.symm⟩
    refine ⟨fun part hpart b hb => ?_, fun part hpart hunrooted b hb => ?_⟩
    · obtain ⟨seg, hseg, hbytes⟩ := hsingle part hpart
      obtain ⟨hnull, hslash, -⟩ := hname seg hseg
      rw [hbytes] at hb
      by_contra hprefix
      simp only [isPathPrefix, Bool.not_eq_false, Bool.or_eq_true, beq_iff_eq] at hprefix
      rcases hprefix with (rfl | rfl) | rfl
      · exact hnull ((head_segBytes_iff (k := '\x00') (by decide)).mp hb)
      · have hdot := (head_segBytes_iff (k := '.') (by decide)).mp hb
        exact (eq_of_segmentsOf hseg).2 (List.mem_of_head? hdot)
      · exact hslash ((head_segBytes_iff (k := '/') (by decide)).mp hb)
    · obtain ⟨seg, hseg, hbytes⟩ := hsingle part hpart
      obtain ⟨-, -, hcaret⟩ := hname seg hseg
      have hunrooted : isRooted name = false := hroot.symm.trans hunrooted
      rw [hbytes] at hb
      by_contra hprefix
      simp only [isRootPrefix, Bool.not_eq_false, Bool.or_eq_true, beq_iff_eq] at hprefix
      rcases hprefix with rfl | rfl
      · -- the name would have a root
        have hbackslash := (head_segBytes_iff (k := '\\') (by decide)).mp hb
        obtain ⟨hname, -⟩ := eq_of_segmentsOf hseg
        rw [hunrooted, if_neg Bool.false_ne_true, List.drop_zero] at hname
        rw [isRooted, hname, hbackslash] at hunrooted
        exact absurd hunrooted (by decide)
      · exact hcaret hunrooted ((head_segBytes_iff (k := '^') (by decide)).mp hb)

/-- **Names read back** exactly when they have at most 255 segments, all of them
segments for the reader, and a segment that stands alone begins with no null, slash
or, without a root, caret. -/
theorem readsBackPath_iff (isSeg : Bytes → Bool) {name : String} {path : Path}
    (h : Path.new name = .ok path) :
    ReadsBackPath isSeg path ↔ (segmentsOf name).length ≤ 255 ∧
      (∀ seg ∈ segmentsOf name, isSeg (segBytes seg) = true) ∧ LeadsSegment name := by
  obtain ⟨-, hparts⟩ := path_of_new h
  have hne := nameParts_ne_nil_of_new h
  have hencode : toAmlBytes path ([] : Bytes) = .ok path.encode := path.toAmlBytes_eq hne []
  have hreads : ReadsBackPath isSeg path ↔
      ∀ rest, nameStringOf isSeg (path.encode ++ rest) = some (path.nameString, rest) := by
    constructor
    · rintro ⟨w, hw, hread⟩
      obtain rfl := Except.ok.inj (hencode.symm.trans hw)
      exact hread
    · intro hread
      exact ⟨_, hencode, hread⟩
  have hcount : path.nameParts.length = (segmentsOf name).length := by
    simpa using congrArg List.length hparts
  have hsegs : (∀ part ∈ path.nameParts, isSeg part.toList = true) ↔
      ∀ seg ∈ segmentsOf name, isSeg (segBytes seg) = true := by
    have hmaps := congrArg (fun l => ∀ bytes ∈ l, isSeg bytes = true) hparts
    simp only [List.forall_mem_map] at hmaps
    rw [hmaps]
  rw [hreads, Path.reads_iff hne, hcount, hsegs, unmistakable_iff h]

theorem readsBackPath_iff_pci0 :
    ReadsBackPath isNameSeg pci0Path ∧ ReadsBackPath (fun _ => true) pci0Path := by
  have hname : LeadsSegment "\\_SB_.PCI0" := by
    intro seg hseg
    have htwo : (segmentsOf "\\_SB_.PCI0").length = 2 := by decide
    rw [hseg] at htwo
    exact absurd htwo (by simp)
  exact ⟨(readsBackPath_iff isNameSeg path_new_pci0).mpr ⟨by decide, by decide, hname⟩,
    (readsBackPath_iff (fun _ => true) path_new_pci0).mpr ⟨by decide, by decide, hname⟩⟩

/-- A caret is accepted and read as the parent, whatever a segment is. -/
theorem caret_not_readsBackPath :
    ∃ path, Path.new "^ABC" = .ok path ∧ ∀ isSeg, ¬ ReadsBackPath isSeg path := by
  refine ⟨⟨false, [bstr "^ABC"]⟩, rfl, ?_⟩
  rintro isSeg ⟨w, hw, hread⟩
  obtain rfl := Except.ok.inj hw
  obtain ⟨segs, -, hsegs⟩ := map_eq_some.mp (hread [])
  exact absurd (NameString.mk.inj hsegs).2.1 (by decide)

end AcpiTables
