import Zos.Photostaff.Sidecar

/-!
# Which sidecar belongs to a photo

Each of the three matchers first looks for a sidecar named after the photo and then for one named
after its stem. They differ in what they take for the same name, in what they do about two names
that differ in case only, in what they count as a photo, and the daemon finds the other photos of
a directory by a pattern. Where the names of a directory are tidy all of this comes to the same
(`Tidy`). The daemon still judges each photo alone: a sidecar named after one photo can be the one
named after the stem of another.
-/

namespace Zos.Photostaff.Sidecar

open Zos.Lib.Like

/-- The regular files of a directory. -/
structure Directory where
  path : Text
  names : List Text
  distinct : names.Nodup
  plain : ∀ name ∈ names, '/' ∉ name

structure Photo (directory : Directory) where
  name : Text
  mem : name ∈ directory.names
  isMedia : (candidateKind name).isSome

/-- Every lowering changes letters of ASCII only, nothing is trimmed off a name, no name begins
with a dot, and there is no backslash in the path. -/
structure Tidy (env : Env) (directory : Directory) : Prop where
  path : '\\' ∉ directory.path
  folds : ∀ name ∈ directory.names,
    ∀ text ∈ [name, name ++ xmp, fileStem name, fileStem name ++ xmp],
      env.lower text = asciiLower text
  trimmed : ∀ name ∈ directory.names, env.trim name = name
  visible : ∀ name ∈ directory.names, name.head? ≠ some '.'

variable {env : Env} {directory : Directory} {photo other : Photo directory} {sidecar : Text}

theorem Photo.ext_name (h : photo.name = other.name) : photo = other := by
  cases photo
  cases other
  cases h
  rfl

/-! ## Extensions -/

theorem toLower_dot_iff (c : Char) : c.toLower = '.' ↔ c = '.' := by
  refine ⟨fun h => ?_, fun h => by rw [h]; decide⟩
  unfold Char.toLower at h
  split at h
  · next hupper =>
      obtain ⟨hlow, hhigh⟩ := hupper
      simp only [ge_iff_le, UInt32.le_iff_toNat_le] at hlow hhigh
      have hval := congrArg (UInt32.toNat ∘ Char.val) h
      simp only [Function.comp, UInt32.toNat_add] at hval
      simp at hval hlow hhigh
      omega
  · exact h

theorem dot_mem_asciiLower {text : Text} : '.' ∈ asciiLower text ↔ '.' ∈ text := by
  simp [asciiLower, toLower_dot_iff]

/-- The last dot of a name, if it has one. -/
theorem name_cases (name : Text) :
    '.' ∉ name ∨ ∃ stem extension, name = stem ++ '.' :: extension ∧ '.' ∉ extension := by
  by_cases hdot : '.' ∈ name
  · obtain ⟨front, rest, hreverse, hfront⟩ := List.eq_append_cons_of_mem (List.mem_reverse.mpr hdot)
    refine .inr ⟨rest.reverse, front.reverse, ?_, by simpa using hfront⟩
    rw [← List.reverse_inj, hreverse]
    simp
  · exact .inl hdot

theorem splitAtDot_append {stem extension : Text} (h : '.' ∉ extension) :
    splitAtDot (stem ++ '.' :: extension) = some (stem, extension) := by
  have hbefore : ∀ c ∈ extension.reverse, decide (c ≠ '.') = true := by
    intro c hc
    exact decide_eq_true fun heq => h (heq ▸ List.mem_reverse.mp hc)
  have hreverse : (stem ++ '.' :: extension).reverse =
      extension.reverse ++ '.' :: stem.reverse := by simp
  rw [splitAtDot, if_pos (by simp), hreverse, List.takeWhile_append_of_pos hbefore,
    List.dropWhile_append_of_pos hbefore]
  simp

theorem splitAtDot_asciiLower (name : Text) : splitAtDot (asciiLower name) =
    (splitAtDot name).map fun parts => (asciiLower parts.1, asciiLower parts.2) := by
  obtain hnone | ⟨stem, extension, rfl, hdot⟩ := name_cases name
  · simp [splitAtDot, hnone, dot_mem_asciiLower]
  · have hlower : asciiLower (stem ++ '.' :: extension) =
        asciiLower stem ++ '.' :: asciiLower extension := by
      simp [asciiLower, show Char.toLower '.' = '.' by decide]
    rw [hlower, splitAtDot_append hdot, splitAtDot_append (mt dot_mem_asciiLower.mp hdot)]
    rfl

theorem Tidy.kind_eq (h : Tidy env directory) {name : Text} (hname : name ∈ directory.names) :
    photostaffMediaKind env name = candidateKind name := by
  rw [photostaffMediaKind, h.trimmed name hname, h.folds name hname name (by simp),
    splitAtDot_asciiLower, candidateKind]
  obtain hnone | ⟨stem, extension, rfl, hdot⟩ := name_cases name
  · simp [splitAtDot, hnone]
  · have hstem : stem ≠ [] := by
      rintro rfl
      exact h.visible _ hname rfl
    simp [splitAtDot_append hdot, hstem]

theorem asciiLower_append (a b : Text) : asciiLower (a ++ b) = asciiLower a ++ asciiLower b :=
  List.map_append

/-- A file that is named after another is a sidecar. -/
theorem isSidecar_of_named {name base : Text} (h : asciiLower name = asciiLower (base ++ xmp)) :
    isSidecar name = true := by
  have hxmp : asciiLower xmp = '.' :: "xmp".toList := by decide
  rw [asciiLower_append, hxmp] at h
  have hsplit := splitAtDot_asciiLower name
  rw [h, splitAtDot_append (by decide)] at hsplit
  obtain ⟨⟨stem, extension⟩, hname, hparts⟩ := Option.map_eq_some_iff.mp hsplit.symm
  have hkind : candidateKind name = none := by
    rw [candidateKind, hname]
    dsimp only
    rw [(Prod.mk.inj hparts).2]
    split
    · rfl
    · decide
  rw [isSidecar, hkind, h, Option.isNone_none, Bool.true_and, List.isSuffixOf_iff_suffix]
  exact List.suffix_append ..

/-! ## What the matchers look at -/

/-- The files with a name, in any case. -/
def matching (directory : Directory) (expected : Text) : List Text :=
  directory.names.filter fun name => asciiLower name = asciiLower expected

/-- The photos with the stem of a photo. -/
def fellows (photo : Photo directory) : List Text :=
  directory.names.filter fun name => (candidateKind name).isSome &&
    asciiLower (fileStem name) = asciiLower (fileStem photo.name)

theorem asciiLower_join_iff {parent name name' : Text} :
    asciiLower (join parent name) = asciiLower (join parent name') ↔
      asciiLower name = asciiLower name' := by
  unfold join
  split <;> simp [asciiLower]

theorem lower_join_iff {parent name name' : Text} :
    env.lower (join parent name) = env.lower (join parent name') ↔
      env.lower name = env.lower name' := by
  unfold join
  split
  · rfl
  · rw [env.lower_join, env.lower_join, List.append_cancel_left_eq, List.cons.injEq]
    simp

/-- Without a backslash the escaped text matches itself only. -/
theorem tokens_escaped {front : Text} (hfront : '\\' ∉ front) (rest : Text) :
    tokens (front.flatMap (fun c => if c = '%' ∨ c = '_' then ['\\', c] else [c]) ++ rest) =
      front.map (fun c => .single (some c)) ++ tokens rest := by
  induction front with
  | nil => rfl
  | cons c front ih =>
      rw [List.mem_cons, not_or] at hfront
      rw [List.flatMap_cons, List.append_assoc, List.map_cons, List.cons_append, ← ih hfront.2]
      split
      · rfl
      · next hplain =>
        rw [not_or] at hplain
        have hescape : c ≠ '\\' := Ne.symm hfront.1
        simp [tokens, hescape, hplain]

namespace Tidy

variable (h : Tidy env directory) (photo : Photo directory)

include h

theorem lower_name {name : Text} (hname : name ∈ directory.names) :
    env.lower name = asciiLower name := h.folds name hname name (by simp)

theorem candidatesNamed_eq {base : Text} (hbase : base = photo.name ∨ base = fileStem photo.name) :
    candidatesNamed env directory.path directory.names photo.name (base ++ xmp) =
      matching directory (base ++ xmp) := by
  have hlower : env.lower (base ++ xmp) = asciiLower (base ++ xmp) := by
    refine h.folds photo.name photo.mem _ ?_
    obtain rfl | rfl := hbase <;> simp
  have hexpected : asciiLower (base ++ xmp) = asciiLower (photo.name ++ xmp) ∨
      asciiLower (base ++ xmp) = asciiLower (fileStem photo.name ++ xmp) :=
    hbase.imp (fun heq => by rw [heq]) fun heq => by rw [heq]
  rw [candidatesNamed, candidates, List.filter_filter, List.filter_filter]
  refine List.filter_congr fun name hname => ?_
  simp only [lower_join_iff, asciiLower_join_iff, h.lower_name hname, hlower]
  by_cases hsame : asciiLower name = asciiLower (base ++ xmp)
  · simp [hsame, hexpected, isSidecar_of_named hsame]
  · simp [hsame]

theorem actual_name : actual env directory.names (env.lower (photo.name ++ xmp)) =
    matching directory (photo.name ++ xmp) := by
  rw [h.folds photo.name photo.mem _ (by simp)]
  exact List.filter_congr fun name hname => by rw [h.lower_name hname]

theorem actual_stem : actual env directory.names (env.lower (fileStem photo.name) ++ xmp) =
    matching directory (fileStem photo.name ++ xmp) := by
  rw [h.folds photo.name photo.mem _ (by simp), matching, asciiLower_append,
    show asciiLower xmp = xmp by decide]
  exact List.filter_congr fun name hname => by rw [h.lower_name hname]

theorem stem_iff {name : Text} (hname : name ∈ directory.names) :
    env.lower (fileStem name) = env.lower (fileStem photo.name) ↔
      asciiLower (fileStem name) = asciiLower (fileStem photo.name) := by
  rw [h.folds name hname _ (by simp), h.folds photo.name photo.mem _ (by simp)]

theorem siblings_eq {kind : Text → Option MediaKind}
    (hkind : ∀ name ∈ directory.names, kind name = candidateKind name) :
    siblings env directory.names kind photo.name = fellows photo :=
  List.filter_congr fun name hname => by simp only [hkind name hname, h.stem_iff photo hname]

/-- The pattern for the directory matches all its files. -/
theorem like_siblingLike (name : Text) :
    like (tokens (siblingLike directory.path)) (join directory.path name) = true := by
  rw [siblingLike, join]
  split
  · exact like_any name
  · rw [tokens_escaped (by simpa using h.path), show directory.path ++ '/' :: name =
      (directory.path ++ ['/']) ++ name by simp, like_literal]
    exact like_any name

theorem sameStem_eq : sameStem env directory.path directory.names photo.name = fellows photo := by
  rw [sameStem, List.filter_filter, List.filter_filter]
  refine List.filter_congr fun name hname => ?_
  simp only [h.like_siblingLike name, h.stem_iff photo hname, Bool.true_and, Bool.and_comm]

end Tidy

/-! ## One rule -/

/-- No other photo has its stem, or it is the only raw file that has. -/
def Alone (photo : Photo directory) : Prop :=
  (fellows photo).length = 1 ∨ (fellows photo).filter (candidateKind · = some .raw) = [photo.name]

instance (photo : Photo directory) : Decidable (Alone photo) := inferInstanceAs (Decidable (_ ∨ _))

/-- The sidecar named after the photo, or else after its stem if the photo is alone. -/
def rule (pick : List Text → Option Text) (photo : Photo directory) : Option Text :=
  if matching directory (photo.name ++ xmp) = [] then
    if Alone photo then pick (matching directory (fileStem photo.name ++ xmp)) else none
  else pick (matching directory (photo.name ++ xmp))

def only : List Text → Option Text
  | [name] => some name
  | _ => none

theorem mem_fellows (photo : Photo directory) : photo.name ∈ fellows photo := by
  simp [fellows, photo.mem, photo.isMedia]

theorem raw_alone_iff (photo : Photo directory) : candidateKind photo.name = some .raw ∧
      ((fellows photo).filter (candidateKind · = some .raw)).length = 1 ↔
    (fellows photo).filter (candidateKind · = some .raw) = [photo.name] := by
  constructor
  · rintro ⟨hraw, hlength⟩
    obtain ⟨name, hname⟩ := List.length_eq_one_iff.mp hlength
    have hmem : photo.name ∈ [name] :=
      hname ▸ List.mem_filter.mpr ⟨mem_fellows photo, decide_eq_true hraw⟩
    rw [hname, List.mem_singleton.mp hmem]
  · intro h
    have hmem : photo.name ∈ (fellows photo).filter (candidateKind · = some .raw) :=
      h ▸ List.mem_singleton_self _
    exact ⟨of_decide_eq_true (List.mem_filter.mp hmem).2, by rw [h]; rfl⟩

namespace Tidy

variable (h : Tidy env directory) (photo : Photo directory)

include h

theorem sidecarFor_eq :
    selected (sidecarFor env directory.path directory.names photo.name) = rule only photo := by
  rw [sidecarFor, h.candidatesNamed_eq photo (.inl rfl), h.candidatesNamed_eq photo (.inr rfl),
    h.sameStem_eq, rule]
  split
  · next hname => simp [hname, only, selected, Except.toOption]
  · next hname => simp [hname, only, selected, Except.toOption]
  · next hname =>
    rw [if_pos hname]
    split
    · next hstem => simp [hstem, only, selected, Except.toOption]
    · next hstem => simp [hstem, only, selected, Except.toOption]
    · next hstem =>
      simp only [raw_alone_iff, hstem, Alone, only]
      split <;> rfl

theorem sidecarAssociations_eq :
    selected (sidecarAssociations env directory.names photo.name) = rule only photo := by
  have hlength := List.length_pos_of_mem (mem_fellows photo)
  rw [sidecarAssociations, h.actual_name, h.actual_stem, h.siblings_eq photo fun _ _ => rfl, rule]
  split
  · next hname => simp [hname, only, selected, Except.toOption]
  · next hname => simp [hname, only, selected, Except.toOption]
  · next hname =>
    rw [if_pos hname]
    split
    · next hstem => simp [hstem, only, selected, Except.toOption]
    · next first others hstem =>
      have halone : (1 < (fellows photo).length ∧
          (fellows photo).filter (candidateKind · = some .raw) ≠ [photo.name]) ↔ ¬ Alone photo := by
        rw [Alone, not_or]
        exact and_congr_left' ⟨fun _ => by omega, fun _ => by omega⟩
      simp only [halone, hstem]
      cases others with
      | nil => by_cases hphoto : Alone photo <;> simp [hphoto, only, selected, Except.toOption]
      | cons other others => simp [only, selected, Except.toOption]

theorem resolveAssociatedSidecar_eq :
    resolveAssociatedSidecar env directory.names photo.name = rule List.getLast? photo := by
  have hraw : (fellows photo).filter (photostaffMediaKind env · = some .raw) =
      (fellows photo).filter (candidateKind · = some .raw) :=
    List.filter_congr fun name hname => by rw [h.kind_eq (List.mem_filter.mp hname).1]
  rw [resolveAssociatedSidecar, h.actual_name, h.actual_stem,
    h.siblings_eq photo fun _ => h.kind_eq, rule]
  split
  · next name hlast =>
    rw [if_neg (List.ne_nil_of_mem (List.mem_of_getLast? hlast)), hlast]
  · next hlast =>
    rw [if_pos (List.getLast?_eq_none_iff.mp hlast)]
    simp only [hraw]
    rfl

end Tidy

/-! ## Agreement of the matchers -/

/-- The three matchers select the same sidecar or none. -/
def Agree (env : Env) (photo : Photo directory) : Prop :=
  selected (sidecarFor env directory.path directory.names photo.name) =
      resolveAssociatedSidecar env directory.names photo.name ∧
    selected (sidecarAssociations env directory.names photo.name) =
      resolveAssociatedSidecar env directory.names photo.name

/-- No two sidecars differ in case only. -/
def OneCase (directory : Directory) : Prop :=
  ∀ name ∈ directory.names, ∀ other ∈ directory.names, xmp <:+ asciiLower name →
    asciiLower name = asciiLower other → name = other

theorem OneCase.only_eq_getLast (h : OneCase directory) (base : Text) :
    only (matching directory (base ++ xmp)) = (matching directory (base ++ xmp)).getLast? := by
  have hnodup : (matching directory (base ++ xmp)).Nodup := directory.distinct.filter _
  have hsame : ∀ name ∈ matching directory (base ++ xmp),
      ∀ other ∈ matching directory (base ++ xmp), name = other := by
    intro name hname other hother
    obtain ⟨hname, hlower⟩ := List.mem_filter.mp hname
    obtain ⟨hother, hlower'⟩ := List.mem_filter.mp hother
    rw [decide_eq_true_iff] at hlower hlower'
    refine h name hname other hother ?_ (hlower.trans hlower'.symm)
    rw [hlower, asciiLower_append]
    exact List.suffix_append ..
  rcases hlist : matching directory (base ++ xmp) with _ | ⟨name, _ | ⟨other, rest⟩⟩
  · rfl
  · rfl
  · rw [hlist] at hnodup hsame
    have heq := hsame name (.head _) other (.tail _ (.head _))
    simp [heq] at hnodup

/-- Lowering that knows ASCII only. -/
def asciiEnv : Env where
  lower := asciiLower
  trim := id
  lower_join _ _ := by simp [asciiLower, show Char.toLower '/' = '/' by decide]

theorem tidy_ascii {directory : Directory} (hpath : '\\' ∉ directory.path)
    (hvisible : ∀ name ∈ directory.names, name.head? ≠ some '.') : Tidy asciiEnv directory :=
  ⟨hpath, fun _ _ _ _ => rfl, fun _ _ => rfl, hvisible⟩

/-- A raw file with what was developed from it, and a picture. -/
def developed : Directory where
  path := "100%_raw".toList
  names := ["a.jpg", "A.CR2", "a.xmp", "b.png", "b.png.xmp"].map String.toList
  distinct := by decide
  plain := by decide

def rawFile : Photo developed := ⟨"A.CR2".toList, by decide, by decide⟩

/-- No sidecar has two photos, and no photo takes the sidecar of another with it. -/
structure SidecarsApart (env : Env) (directory : Directory) : Prop where
  attached : ∀ (photo other : Photo directory) sidecar,
    selected (sidecarFor env directory.path directory.names photo.name) = some sidecar →
      selected (sidecarFor env directory.path directory.names other.name) = some sidecar →
        photo = other
  taken : ∀ (photo other : Photo directory) sidecar,
    resolveAssociatedSidecar env directory.names photo.name = some sidecar →
      selected (sidecarFor env directory.path directory.names other.name) = some sidecar →
        photo = other

/-- A photo after which a sidecar is named shares its name with no photo in another case, and with
the stem of none. -/
structure Unshared (names : List Text) : Prop where
  byName : ∀ photo ∈ names, ∀ other ∈ names, ∀ sidecar ∈ names, (candidateKind photo).isSome →
    (candidateKind other).isSome → asciiLower sidecar = asciiLower (photo ++ xmp) →
      asciiLower other = asciiLower photo → other = photo
  byStem : ∀ photo ∈ names, ∀ other ∈ names, ∀ sidecar ∈ names, (candidateKind photo).isSome →
    (candidateKind other).isSome → asciiLower sidecar = asciiLower (photo ++ xmp) →
      asciiLower (fileStem other) ≠ asciiLower photo

/-- The sidecar has the name of the photo, or that of its stem and the photo is alone. -/
def Chosen (photo : Photo directory) (sidecar : Text) : Prop :=
  sidecar ∈ matching directory (photo.name ++ xmp) ∨
    sidecar ∈ matching directory (fileStem photo.name ++ xmp) ∧ Alone photo

theorem chosen_of_rule {pick : List Text → Option Text}
    (hpick : ∀ list name, pick list = some name → name ∈ list)
    (h : rule pick photo = some sidecar) : Chosen photo sidecar := by
  rw [rule] at h
  split at h
  · split at h
    · next halone => exact .inr ⟨hpick _ _ h, halone⟩
    · cases h
  · exact .inl (hpick _ _ h)

theorem mem_of_only (list : List Text) (name : Text) (h : only list = some name) : name ∈ list := by
  unfold only at h
  split at h
  · rw [Option.some.inj h]
    exact List.mem_singleton_self _
  · cases h

theorem mem_matching_iff {base : Text} : sidecar ∈ matching directory (base ++ xmp) ↔
    sidecar ∈ directory.names ∧ asciiLower sidecar = asciiLower (base ++ xmp) := by
  rw [matching, List.mem_filter, decide_eq_true_iff]

/-- By their stems two photos do not get the same sidecar. -/
theorem eq_of_alone (h : Alone photo) (h' : Alone other)
    (hstem : asciiLower (fileStem photo.name) = asciiLower (fileStem other.name)) :
    photo = other := by
  have hfellows : fellows photo = fellows other := by rw [fellows, fellows, hstem]
  have hphoto := mem_fellows photo
  have hother := mem_fellows other
  rw [hfellows] at hphoto
  have hsingle (hone : (fellows other).length = 1) : photo.name = other.name := by
    obtain ⟨name, hname⟩ := List.length_eq_one_iff.mp hone
    rw [hname, List.mem_singleton] at hphoto hother
    exact hphoto.trans hother.symm
  refine Photo.ext_name ?_
  rw [Alone, hfellows] at h
  obtain hone | hraw := h
  · exact hsingle hone
  · obtain hone | hraw' := h'
    · exact hsingle hone
    · exact List.singleton_inj.mp (hraw.symm.trans hraw')

theorem Unshared.eq_of_chosen (h : Unshared directory.names) (hphoto : Chosen photo sidecar)
    (hother : Chosen other sidecar) : photo = other := by
  have hbase {base base' : Text} (hleft : asciiLower sidecar = asciiLower (base ++ xmp))
      (hright : asciiLower sidecar = asciiLower (base' ++ xmp)) :
      asciiLower base = asciiLower base' := by
    rw [asciiLower_append] at hleft hright
    exact List.append_cancel_right (hleft.symm.trans hright)
  simp only [Chosen, mem_matching_iff] at hphoto hother
  obtain ⟨hmem, hname⟩ | ⟨⟨hmem, hstem⟩, halone⟩ := hphoto
  · obtain ⟨-, hname'⟩ | ⟨⟨-, hstem'⟩, -⟩ := hother
    · exact Photo.ext_name (h.byName _ photo.mem _ other.mem sidecar hmem photo.isMedia
        other.isMedia hname (hbase hname' hname)).symm
    · exact absurd (hbase hstem' hname) (h.byStem _ photo.mem _ other.mem sidecar hmem
        photo.isMedia other.isMedia hname)
  · obtain ⟨-, hname'⟩ | ⟨⟨-, hstem'⟩, halone'⟩ := hother
    · exact absurd (hbase hstem hname') (h.byStem _ other.mem _ photo.mem sidecar hmem
        other.isMedia photo.isMedia hname')
    · exact eq_of_alone halone halone' (hbase hstem hstem')

end Zos.Photostaff.Sidecar
