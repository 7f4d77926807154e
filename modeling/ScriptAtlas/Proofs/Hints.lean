import Mathlib.Data.List.TakeWhile
import ScriptAtlas.Proofs.DistinctPaths
import ScriptAtlas.Proofs.UserResults

/-!
# Names, files and lines in queries

What a result shows of a declaration can be read back: its dotted name falls apart into the two
names it was made of, the path shown for its file leads to that file, and the line of its name lies in
it.

* `Text.IsWord`: a text that stands for itself in a query, on either side of a dot;
* `Path.components_join`: the segments of a path that is shown;
* `Index.findFile?_relPath`: the file that a path of a result means;
* `Text.EndsInSegments`: a path ends in the segments of another;
* `Node.Spans`: a node on whose lines another one begins.
-/

namespace ScriptAtlas

open List Project Syntax Storage

/-! ## Names -/

namespace Text

variable {c : Char}

theorem splitLast?_eq_some_iff {s a b : String} :
    splitLast? c s = some (a, b) ↔ c ∉ b.toList ∧ s = a ++ String.singleton c ++ b := by
  have hlist : splitLast? c s = some (a, b) ↔
      splitOnceList? c s.toList.reverse = some (b.toList.reverse, a.toList.reverse) := by
    simp only [splitLast?, Option.map_eq_some_iff, Prod.mk.injEq, Prod.exists]
    constructor
    · rintro ⟨x, y, hsplit, rfl, rfl⟩
      simpa using hsplit
    · intro hsplit
      exact ⟨_, _, hsplit, by simp, by simp⟩
  rw [hlist, splitOnceList?_eq_some_iff, mem_reverse, ← String.toList_inj, reverse_eq_iff]
  simp

theorem splitLast?_eq_none_iff {s : String} : splitLast? c s = none ↔ c ∉ s.toList := by
  rw [splitLast?, Option.map_eq_none_iff, splitOnceList?_eq_none_iff, mem_reverse]

theorem dropWhile_eq_self_iff_head? {p : Char → Bool} {l : List Char} :
    l.dropWhile p = l ↔ ∀ c ∈ l.head?, p c = false := by
  cases l with
  | nil => simp
  | cons d l =>
    rw [dropWhile_eq_self_iff]
    simp

theorem trim_eq_self_iff {s : String} :
    trim s = s ↔ (∀ c ∈ s.toList.head?, isWhiteSpace c = false) ∧
      ∀ c ∈ s.toList.getLast?, isWhiteSpace c = false := by
  have hlist : trim s = s ↔
      ((s.toList.dropWhile isWhiteSpace).reverse.dropWhile isWhiteSpace).reverse = s.toList := by
    rw [← String.toList_inj]
    simp [trim, dropEnd, dropStart]
  rw [hlist, ← head?_reverse, ← dropWhile_eq_self_iff_head?, ← dropWhile_eq_self_iff_head?]
  constructor
  · intro h
    have hstart : s.toList.dropWhile isWhiteSpace = s.toList := by
      refine (dropWhile_suffix isWhiteSpace).eq_of_length_le ?_
      have hlen := congrArg List.length h
      have hle := (dropWhile_suffix (l := (s.toList.dropWhile isWhiteSpace).reverse)
        isWhiteSpace).length_le
      simp only [length_reverse] at hlen hle
      omega
    refine ⟨hstart, ?_⟩
    rw [hstart] at h
    rw [← reverse_eq_iff]
    exact h
  · rintro ⟨hstart, hend⟩
    rw [hstart, hend, reverse_reverse]

/-- A name that a query can contain as it is: it is not empty, has no dot, and no white space at
either end. -/
structure IsWord (s : String) : Prop where
  nonempty : s ≠ ""
  dotless : '.' ∉ s.toList
  trimmed : trim s = s

theorem IsWord.toList_ne_nil {s : String} (h : IsWord s) : s.toList ≠ [] := by
  intro hnil
  exact h.nonempty (String.toList_inj.1 hnil)

theorem IsWord.splitLast?_dotted {owner member : String} (hm : IsWord member) :
    splitLast? '.' (owner ++ "." ++ member) = some (owner, member) :=
  splitLast?_eq_some_iff.2 ⟨hm.dotless, rfl⟩

theorem IsWord.trim_dotted {owner member : String} (ho : IsWord owner) (hm : IsWord member) :
    trim (owner ++ "." ++ member) = owner ++ "." ++ member := by
  obtain ⟨hstart, -⟩ := trim_eq_self_iff.1 ho.trimmed
  obtain ⟨-, hend⟩ := trim_eq_self_iff.1 hm.trimmed
  obtain ⟨c, cs, hc⟩ := exists_cons_of_ne_nil ho.toList_ne_nil
  refine trim_eq_self_iff.2 ⟨fun d hd => hstart d ?_, fun d hd => hend d ?_⟩
  · simpa [hc] using hd
  · rw [String.toList_append, getLast?_append_of_ne_nil _ hm.toList_ne_nil] at hd
    exact hd

end Text

/-! ## Files -/

namespace Storage.Path

/-- The segments are such as a text can be cut into. -/
def IsProper (p : Path) : Prop := ∀ s ∈ p.segments, s ≠ "" ∧ s ≠ "." ∧ '/' ∉ s.toList

instance (p : Path) : Decidable p.IsProper := inferInstanceAs (Decidable (∀ s ∈ _, _))

variable {segments : List String}

theorem components_join (h : IsProper ⟨segments⟩) :
    components (Text.join "/" segments) = segments := by
  induction segments with
  | nil => rfl
  | cons s rest ih =>
    obtain ⟨⟨hne, hdot, hfree⟩, hrest⟩ := forall_mem_cons.1 h
    have hkeep : (s != "" && s != ".") = true := by simp [hne, hdot]
    cases rest with
    | nil => simp [components, Text.join, Text.split_of_not_mem hfree, hkeep]
    | cons t rest =>
      have hsplit : Text.split '/' (Text.join "/" (s :: t :: rest)) =
          s :: Text.split '/' (Text.join "/" (t :: rest)) := Text.split_append hfree
      rw [components, hsplit, filter_cons, if_pos hkeep]
      exact congrArg (s :: ·) (ih hrest)

theorem toList_join_cons (s : String) (rest : List String) :
    ∃ tail, (Text.join "/" (s :: rest)).toList = s.toList ++ tail ∧ ∀ c ∈ tail.head?, c = '/' := by
  cases rest with
  | nil => exact ⟨[], by simp [Text.join], by simp⟩
  | cons t rest => exact ⟨'/' :: (Text.join "/" (t :: rest)).toList, by simp [Text.join], by simp⟩

/-- A path that is shown is relative and does not name its directory. -/
theorem not_beginsWith_join (h : IsProper ⟨segments⟩) {r : String} :
    Text.join "/" segments ≠ "/" ++ r ∧ Text.join "/" segments ≠ "./" ++ r := by
  cases segments with
  | nil => simp [Text.join, ← String.toList_inj]
  | cons s rest =>
    obtain ⟨hne, hdot, hfree⟩ := h s mem_cons_self
    obtain ⟨tail, htext, htail⟩ := toList_join_cons s rest
    obtain ⟨c, cs, hs⟩ := exists_cons_of_ne_nil fun hnil => hne (String.toList_inj.1 hnil)
    rw [Ne, Ne, ← String.toList_inj, ← String.toList_inj, htext, hs]
    rw [hs] at hfree
    constructor
    · intro heq
      have hc : c = '/' := by simpa using congrArg List.head? heq
      exact hfree (hc ▸ mem_cons_self)
    · intro heq
      obtain ⟨hc, hrest⟩ : c = '.' ∧ cs ++ tail = '/' :: r.toList := by simpa using heq
      cases cs with
      | nil => exact hdot (String.toList_inj.1 (by simp [hs, hc]))
      | cons d cs =>
        have hd : d = '/' := (List.cons.inj hrest).1
        exact hfree (mem_cons_of_mem _ (hd ▸ mem_cons_self))

theorem isAbsoluteText_join (h : IsProper ⟨segments⟩) :
    isAbsoluteText (Text.join "/" segments) = false := by
  refine Bool.eq_false_iff.2 fun habs => ?_
  obtain ⟨r, hr⟩ := Text.beginsWith_iff.1 habs
  exact (not_beginsWith_join h).1 hr

theorem join_join (dir : Path) (h : IsProper ⟨segments⟩) :
    dir.join (Text.join "/" segments) = ⟨dir.segments ++ segments⟩ := by
  rw [join, isAbsoluteText_join h, components_join h]
  rfl

end Storage.Path

theorem Text.dropLeading_eq_self {p s : String} (h : ∀ r, s ≠ p ++ r) : dropLeading p s = s := by
  unfold dropLeading
  cases s.length with
  | zero => rfl
  | succ fuel => rw [dropLeadingUpTo, after?_eq_none_iff.2 h]

namespace Project.Index

variable {fs : FileSystem} {root : Path} {settings : Settings} {idx : Index} {f : SourceFile}

theorem findFile?_join {below : List String} (hproper : Path.IsProper ⟨below⟩)
    (hfind : idx.fileByPath? ⟨idx.root.segments ++ below⟩ = some f) :
    idx.findFile? (Text.join "/" below) = some f := by
  have hdrop : Text.dropLeading "./" (Text.join "/" below) = Text.join "/" below :=
    Text.dropLeading_eq_self fun r => (Path.not_beginsWith_join hproper).2
  simp only [findFile?, hdrop, Path.isAbsoluteText_join hproper, Path.join_join _ hproper, hfind]
  rfl

theorem relPath_eq_of_storedIn (h : f.StoredIn fs root settings) :
    f.relPath = root.relativeTo f.path := by
  obtain ⟨-, text, -, hnew⟩ := h
  exact congrArg SourceFile.relPath hnew

theorem exists_mem_files_of_storedIn (h : f.StoredIn fs root settings) :
    ∃ e ∈ fs.files, e.1 = f.path := by
  obtain ⟨-, text, hcontent, -⟩ := h
  obtain ⟨e, he, -⟩ := Option.map_eq_some_iff.1 hcontent
  exact ⟨e, mem_of_find?_eq_some he, by simpa using find?_some he⟩

/-- The path that is shown for a file of the user is made of its segments below the root. -/
theorem exists_relPath_eq_join (hproper : ∀ p ∈ fs.files, p.1.IsProper)
    (h : build_ fs root settings = .ok idx) (hf : f ∈ idx.files) (huser : f.isUser = true)
    (hstored : f.StoredIn fs root.normalize settings) :
    ∃ below, f.relPath = Text.join "/" below ∧ Path.IsProper ⟨below⟩ ∧
      f.path = ⟨idx.root.segments ++ below⟩ := by
  obtain ⟨e, he, hpath⟩ := exists_mem_files_of_storedIn hstored
  rw [isUser_of_build_ h f hf, Bool.and_eq_true, Bool.and_eq_true] at huser
  obtain ⟨below, hbelow⟩ := isWithin_iff.1 huser.1.1
  refine ⟨below, ?_, fun s hs => hproper e he s ?_, by rw [← hbelow]⟩
  · rw [relPath_eq_of_storedIn hstored, ← root_of_build_ h, Path.relativeTo, Path.below?,
      if_pos (by simp [hbelow])]
    simp [hbelow]
  · rw [hpath, hbelow]
    exact mem_append_right _ hs

/-- A path of a result means the file it was shown for, or one at the same path. -/
theorem findFile?_relPath (hfs : fs.IsNormal) (hproper : ∀ p ∈ fs.files, p.1.IsProper)
    (h : build_ fs root settings = .ok idx) (hf : f ∈ idx.files) (huser : f.isUser = true) :
    ∃ g ∈ idx.files, idx.findFile? f.relPath = some g ∧ g = { f with id := g.id } ∧
      ((idx.files.toList.map SourceFile.path).Nodup → g = f) := by
  have hstored := (distinctBut_of_build_ hfs h).stored
  have hnormal : ∀ f ∈ idx.files, f.path.IsNormal := fun f hf => (hstored f hf).1
  obtain ⟨g, hg, hfind, hpath⟩ := exists_fileByPath? hf (hnormal f hf)
  obtain ⟨below, hrel, hbelow, hsegments⟩ :=
    exists_relPath_eq_join hproper h hf huser (hstored f hf)
  refine ⟨g, hg, ?_, (hstored f hf).eq_of_path_eq (hstored g hg) hpath, fun hnodup => ?_⟩
  · rw [hrel]
    exact findFile?_join hbelow (hsegments ▸ hfind)
  · have hself := (nodup_paths_iff (wellFormed_of_build_ h) hnormal).1 hnodup f hf
    exact Option.some.inj (hfind.symm.trans hself)

end Project.Index

/-! ## Ends of paths -/

namespace Text

theorem endsWith_iff {p s : String} : endsWith p s = true ↔ ∃ r, s = r ++ p := by
  rw [endsWith, Option.isSome_iff_exists]
  exact exists_congr fun r => before?_eq_some_iff

/-- The last segments of a path are those of another. -/
def EndsInSegments (hint path : String) : Prop := split '/' hint <:+ split '/' path

instance (hint path : String) : Decidable (EndsInSegments hint path) :=
  inferInstanceAs (Decidable (_ <:+ _))

theorem endsInSegments_iff {hint path : String} :
    EndsInSegments hint path ↔ path = hint ∨ ∃ r, path = r ++ "/" ++ hint := by
  constructor
  · rintro ⟨front, hfront⟩
    have hjoin : path = join "/" (front ++ split '/' hint) := by
      rw [hfront]
      exact (join_split (c := '/') path).symm
    have hhint : join "/" (split '/' hint) = hint := join_split (c := '/') hint
    cases front with
    | nil => exact .inl (hjoin.trans hhint)
    | cons s front =>
      rw [join_append (cons_ne_nil s front) split_ne_nil, hhint] at hjoin
      exact .inr ⟨_, hjoin⟩
  · rintro (rfl | ⟨r, rfl⟩)
    · exact suffix_refl _
    · exact ⟨split '/' r, split_append_split.symm⟩

end Text

namespace Project.Index

/-- The file that a relative hint means is the one at that path under the root. Where there is none, it
is the first file whose path ends with the text of the hint, be it inside a segment: the file ends in
the segments of the hint only where nothing or a slash is in front of it. No file ends in the segments
of a hint that means none. -/
theorem findFile?_of_relative (idx : Index) {hint h : String} (hh : Text.dropLeading "./" hint = h)
    (hrel : Path.isAbsoluteText h = false) :
    ((∃ f ∈ idx.files, f.path = (idx.root.join h).normalize) →
      ∃ f ∈ idx.files, f.path = (idx.root.join h).normalize ∧ idx.findFile? hint = some f) ∧
    ((∀ f ∈ idx.files, f.path ≠ (idx.root.join h).normalize) →
      (∀ f, idx.findFile? hint = some f ↔ ∃ front before after, f.relPath = front ++ h ∧
        idx.files.toList = before ++ f :: after ∧ ∀ g ∈ before, ∀ r, g.relPath ≠ r ++ h) ∧
      (∀ f front, idx.findFile? hint = some f → f.relPath = front ++ h →
        (Text.EndsInSegments h f.relPath ↔ front = "" ∨ ∃ r, front = r ++ "/")) ∧
      (idx.findFile? hint = none → ∀ f ∈ idx.files, ¬ Text.EndsInSegments h f.relPath)) := by
  have hfind : idx.findFile? hint = (idx.fileByPath? (idx.root.join h)).or
      (idx.files.find? fun f => Text.endsWith h f.relPath) := by
    simp [findFile?, hh, hrel, Option.orElse_eq_or]
  refine ⟨?_, fun hnone => ?_⟩
  · rintro ⟨f, hf, hpath⟩
    cases hby : idx.fileByPath? (idx.root.join h) with
    | none => exact absurd hpath (fileByPath?_eq_none_iff.1 hby f hf)
    | some g =>
      obtain ⟨hg, hgpath⟩ := of_fileByPath?_eq_some hby
      exact ⟨g, hg, hgpath, by rw [hfind, hby]; rfl⟩
  · rw [fileByPath?_eq_none_iff.2 hnone, Option.none_or] at hfind
    refine ⟨fun f => ?_, fun f front _ hf => ?_, fun hempty f hf hends => ?_⟩
    · rw [hfind, ← Array.find?_toList, find?_eq_some_iff_append, Text.endsWith_iff]
      simp [Text.endsWith_iff, ← Bool.not_eq_true]
    · simp [Text.endsInSegments_iff, hf]
    · rw [hfind, Array.find?_eq_none] at hempty
      refine hempty f hf (Text.endsWith_iff.2 ?_)
      rcases Text.endsInSegments_iff.1 hends with h | ⟨r, h⟩
      · exact ⟨"", by simpa using h⟩
      · exact ⟨_, h⟩

/-- A project of one file. -/
def oneFile : Index := .ofTexts [("ab.ts", "export const x = 1;")] []

theorem findFile?_of_relative_own : Path.isAbsoluteText "ab.ts" = false ∧
    ∃ f ∈ oneFile.files, f.path = ⟨["app", "ab.ts"]⟩ ∧ oneFile.findFile? "./ab.ts" = some f := by
  have hfile : ∃ f ∈ oneFile.files, f.path = (oneFile.root.join "ab.ts").normalize :=
    ⟨_, Array.mem_push_self, by decide⟩
  exact ⟨by decide, (findFile?_of_relative oneFile (h := "ab.ts") (by decide) (by decide)).1 hfile⟩

/-- The hint `b.ts` means the file `ab.ts`. -/
theorem findFile?_inside_segment : (oneFile.findFile? "b.ts").map (·.relPath) = some "ab.ts" ∧
    ∀ f ∈ oneFile.files, ¬ Text.EndsInSegments "b.ts" f.relPath := by
  refine ⟨by decide +kernel, fun f hf => ?_⟩
  obtain rfl := Array.mem_singleton.1 hf
  decide

end Project.Index

/-! ## Lines -/

namespace Syntax.Node

variable {n m c : Node}

/-- The other node begins on a line of this one. -/
def Spans (n m : Node) : Prop := n.line ≤ m.line ∧ m.line ≤ n.endLine

instance (n m : Node) : Decidable (n.Spans m) := inferInstanceAs (Decidable (_ ∧ _))

theorem At.spans {root : Shape} {p q : Spot} {up up' : List Spot} (hn : n.At root q up')
    (hm : m.At root p up) (htree : n.tree = m.tree) (hstart : q.shape.start ≤ p.shape.start)
    (hstop : p.shape.start ≤ q.shape.stop) : n.Spans m := by
  have hline : n.start = m.tree.source.mark q.shape.start ∧
      n.stop = m.tree.source.mark q.shape.stop ∧ m.start = m.tree.source.mark p.shape.start := by
    rw [start, stop, start, hn.entry, hm.entry, htree]
    exact ⟨rfl, rfl, rfl⟩
  unfold Spans line endLine
  rw [hline.1, hline.2.1, hline.2.2]
  exact ⟨hm.grown.line_mark_le hstart, hm.grown.line_mark_le hstop⟩

/-- A node that is no comment begins on a line of its own and of every construct around it. -/
theorem spans_of_mem_ancestors {k : Kind} (ht : m.tree.IsParsed) (hplain : m.kind? ≠ some .comment)
    (h : n ∈ m :: m.ancestors) (hk : n.kind? = some k) (hne : k ≠ .program) : n.Spans m := by
  have hlabel {root : Shape} {p : Spot} {up : List Spot} (hm : m.At root p up) :
      p.shape.label ≠ .named .comment := by
    intro hlabel
    rw [hm.kind?, hlabel] at hplain
    exact hplain rfl
  rcases mem_cons.1 h with rfl | h
  · obtain ⟨root, p, up, hn, hid⟩ := exists_at_of_kind? ht hk hne
    have hlt := hn.sits.start_lt hn.grown.rooted hid (hlabel hn)
    exact hn.spans hn rfl (Nat.le_refl _) (Nat.le_of_lt hlt.1)
  · obtain ⟨root, hg⟩ := ht.grown
    obtain ⟨p, up, hm⟩ := exists_at hg (lt_size_of_mem_ancestors h)
    rw [hm.ancestors] at h
    obtain ⟨q, hq, rfl⟩ := mem_map.1 h
    obtain ⟨up', hsits⟩ := hm.sits.above hq
    have hn : (m.tree.node q.id).At root q up' := ⟨hg, hsits, rfl⟩
    have hqid : q.id ≠ 0 := by
      intro hid
      obtain ⟨rfl, -⟩ := hsits.eq_root_of_id hid
      rw [hn.kind?, hg.rooted.label] at hk
      exact hne (Option.some.inj hk).symm
    have hpid : p.id ≠ 0 := by
      intro hid
      obtain ⟨-, rfl⟩ := hm.sits.eq_root_of_id hid
      cases hq
    have hwithin := hm.sits.within hg.rooted (hlabel hm) hq hqid
    have hlt := hm.sits.start_lt hg.rooted hpid (hlabel hm)
    exact hn.spans hm rfl hwithin.1 (by omega)

theorem IsName.kind?_ne_comment (h : m.IsName) : m.kind? ≠ some .comment := by
  obtain ⟨spot, -, hplain, -, -⟩ := h
  intro hk
  exact hplain (spot.label_of_kind? hk)

theorem exists_kind_ne_program (h : n.declarationKind?.isSome = true) :
    ∃ k, n.kind? = some k ∧ k ≠ .program := by
  obtain ⟨k, hk, hrole | rfl | rfl⟩ := role_of_declarationKind? h
  · exact ⟨k, hk, hrole.ne_program⟩
  · exact ⟨_, hk, nofun⟩
  · exact ⟨_, hk, nofun⟩

theorem spans_of_declarationName? (ht : n.tree.IsParsed) (hkind : n.declarationKind?.isSome = true)
    (h : n.declarationName? = some c) : n.Spans c := by
  obtain ⟨k, hk, hne⟩ := exists_kind_ne_program hkind
  have hplain := (isName_of_declarationName? ht hkind h).kind?_ne_comment
  refine spans_of_mem_ancestors (tree_of_declarationName? h ▸ ht) hplain ?_ hk hne
  rcases eq_or_mem_children_of_declarationName? h with ⟨rfl, -⟩ | hc
  · exact mem_cons_self
  · rw [ancestors_of_mem_children ht hc]
    exact mem_cons_of_mem _ mem_cons_self

end Syntax.Node

theorem Declaration.mem_ancestors_of_ofName? {file : SourceFile} {token : Node} {d : Declaration}
    (h : ofName? file token = some d) : d.nameNode = token ∧ d.node ∈ token :: token.ancestors ∧
      ∃ k, d.node.kind? = some k ∧ k ≠ .program := by
  cases namedBy_of_ofName? h with
  | itself hkind =>
    exact ⟨rfl, mem_cons_self, Node.exists_kind_ne_program (Option.isSome_of_eq_some hkind)⟩
  | parent hn _ hkind =>
    rw [Node.parent?_eq_head?] at hn
    exact ⟨rfl, mem_cons_of_mem _ (mem_of_head? hn),
      Node.exists_kind_ne_program (Option.isSome_of_eq_some hkind)⟩
  | bound hn hk hfield =>
    refine ⟨rfl, mem_cons_of_mem _ hn, _, hk, ?_⟩
    rintro rfl
    cases hfield

end ScriptAtlas
