import FeedLedger.Http
import FeedLedger.Proofs.Encoding
import FeedLedger.Proofs.Mirrored
import FeedLedger.Proofs.Titles
import Mathlib.Data.List.TakeWhile

namespace FeedLedger.Http

open Text

/-! ### Routes of names -/

def offsetPath (name : List Char) : List Char := Route.offsetsPath ++ '/' :: name

/-- Whether a path begins with that of the offsets and a slash. -/
theorem isPrefix_withoutLineFeed (name : List Char) :
    Route.offsetsPath ++ ['/'] <+: withoutLineFeed (offsetPath name) := by
  have hself : offsetPath name = (Route.offsetsPath ++ ['/']) ++ name := by simp [offsetPath]
  rw [hself]
  induction name using List.reverseRecOn with
  | nil => decide
  | append_singleton rest c _ =>
    rw [← List.append_assoc, withoutLineFeed, List.reverse_append]
    split
    · rename_i r hr
      simp only [List.reverse_cons, List.reverse_nil, List.nil_append, List.singleton_append, List.cons.injEq] at hr
      rw [← hr.2, List.reverse_reverse]
      exact List.prefix_append _ _
    · rw [List.append_assoc]
      exact List.prefix_append _ _

/-- No fixed path is that of a name, whether a line feed stands at its end or not. -/
theorem ofPath?_offsetPath (name : List Char) : Route.ofPath? (offsetPath name) =
    if name ≠ [] ∧ '/' ∉ name then some (.offset (String.ofList name)) else none := by
  have hprefix := isPrefix_withoutLineFeed name
  have hne {fixed : List Char} (hf : ¬Route.offsetsPath ++ ['/'] <+: fixed) :
      withoutLineFeed (offsetPath name) ≠ fixed := fun he => hf (he ▸ hprefix)
  have hpages : Route.pagePaths.contains (withoutLineFeed (offsetPath name)) = false := by
    have hnone : ∀ page ∈ Route.pagePaths, ¬Route.offsetsPath ++ ['/'] <+: page := by decide
    rw [Bool.eq_false_iff]
    intro hc
    exact hnone _ (List.contains_iff_mem.1 hc) hprefix
  have hself : (Route.offsetsPath ++ ['/']).isPrefixOf (offsetPath name) = true :=
    List.isPrefixOf_iff_prefix.2 ⟨name, by simp [offsetPath]⟩
  have hdrop : (offsetPath name).drop (Route.offsetsPath.length + 1) = name := rfl
  simp only [Route.ofPath?]
  rw [if_neg (hne (by decide)), if_neg (hne (by decide)), if_neg (hne (by decide)), hpages, if_neg Bool.false_ne_true,
    if_pos hself, hdrop]

/-! ### Targets of names -/

/-- Characters that a target may hold as they are. -/
def isBareChar (c : Char) : Bool :=
  !Target.isControl c && Target.isPathChar c && 0x20 ≤ c.toNat && c.toNat < 0x7F && !Target.isUnsafeInPath c

theorem isBareChar_spec {c : Char} (h : isBareChar c = true) :
    (Target.isControl c = false ∧ Target.isPathChar c = true) ∧
      0x20 ≤ c.toNat ∧ c.toNat < 0x7F ∧ Target.isUnsafeInPath c = false := by
  simpa [isBareChar, and_assoc] using h

/-- A path of the service in such characters. -/
structure IsBare (path : List Char) : Prop where
  rooted : ∃ rest, path = '/' :: rest ∧ rest.head? ≠ some '/'
  chars : path.all isBareChar = true
  plain : withoutDots path = path
  length : path.length ≤ Target.maxLength

theorem IsBare.spec {path : List Char} (h : IsBare path) {c : Char} (hc : c ∈ path) :
    (Target.isControl c = false ∧ Target.isPathChar c = true) ∧
      0x20 ≤ c.toNat ∧ c.toNat < 0x7F ∧ Target.isUnsafeInPath c = false :=
  isBareChar_spec (List.all_eq_true.1 h.chars c hc)

theorem ofChars_of_isBare {path : List Char} (h : IsBare path) : Target.ofChars path = ⟨[], [], [], [], path, []⟩ := by
  obtain ⟨rest, rfl, hrest⟩ := h.rooted
  have hall : ∀ c ∈ '/' :: rest, Target.isPathChar c = true := fun c hc => (h.spec hc).1.2
  have hscheme : Target.splitScheme ('/' :: rest) = ([], '/' :: rest) := by
    have hslash : Target.isSchemeChar '/' = false := by decide
    simp [Target.splitScheme, hslash]
  have hauthority : Target.splitAuthority ('/' :: rest) = ([], '/' :: rest) := by
    unfold Target.splitAuthority
    split
    · rename_i r he
      cases he
      exact absurd rfl hrest
    · rfl
  have hpath : ('/' :: rest).takeWhile Target.isPathChar = '/' :: rest := List.takeWhile_eq_self_iff.2 hall
  have hquery : ('/' :: rest).dropWhile Target.isPathChar = [] := List.dropWhile_eq_nil_iff.2 hall
  simp only [Target.ofChars]
  rw [hscheme]
  simp only
  rw [hauthority]
  simp only
  rw [hpath, hquery]
  rfl

theorem encodedLength_of_safe {isUnsafe : Char → Bool} {s : List Char}
    (h : ∀ c ∈ s, 0x20 ≤ c.toNat ∧ c.toNat < 0x7F ∧ isUnsafe c = false) :
    Target.encodedLength isUnsafe s = s.length := by
  have hfold (n : Nat) : s.foldl (fun n c => n + if 0x20 ≤ c.toNat ∧ c.toNat < 0x7F ∧ isUnsafe c = false then 1
      else 3 * c.utf8Size) n = n + s.length := by
    induction s generalizing n with
    | nil => rfl
    | cons c rest ih =>
      obtain ⟨hc, hrest⟩ := List.forall_mem_cons.1 h
      rw [List.foldl_cons, if_pos hc, ih hrest, List.length_cons]
      omega
  rw [Target.encodedLength, hfold, Nat.zero_add]

theorem dropWhile_slash {rest : List Char} (h : rest.head? ≠ some '/') : ('/' :: rest).dropWhile (· = '/') = rest := by
  rw [List.dropWhile_cons_of_pos (by simp)]
  cases rest with
  | nil => rfl
  | cons c r =>
    have hc : c ≠ '/' := fun he => h (by rw [he]; rfl)
    rw [List.dropWhile_cons_of_neg (by simpa using hc)]

theorem fault?_of_isBare {path : List Char} (h : IsBare path) :
    (⟨[], [], [], [], path, []⟩ : Target).fault? = none := by
  have hlength := h.length
  obtain ⟨rest, rfl, hrest⟩ := h.rooted
  rw [List.length_cons] at hlength
  have hencoded : Target.encodedLength Target.isUnsafeInPath rest = rest.length :=
    encodedLength_of_safe fun c hc => (h.spec (List.mem_cons_of_mem _ hc)).2
  have hpath : (⟨[], [], [], [], '/' :: rest, []⟩ : Target).pathFault? = none := by
    simp only [Target.pathFault?, Target.hasAuthority, ne_eq, not_true_eq_false, decide_false, Bool.or_self,
      Bool.false_eq_true, or_self, if_false]
    split
    · rename_i r he
      cases he
      exact absurd rfl hrest
    · rename_i he
      cases he
    · rfl
  have hlong : (⟨[], [], [], [], '/' :: rest, []⟩ : Target).lengthFault? = none := by
    have hquery : Target.encodedLength Target.isUnsafeInQuery [] = 0 := rfl
    simp only [Target.lengthFault?, Target.isAbsolute, dropWhile_slash hrest, hencoded, hquery, ne_eq,
      not_true_eq_false, decide_false, Bool.and_self, Bool.false_eq_true, if_false]
    rw [if_neg (by omega), if_neg (by omega)]
  have hhost : Target.hostFault? [] = none := by decide
  have hport : Target.portFault? [] = none := by decide
  simp only [Target.fault?, hhost, hport, hpath, hlong]
  rfl

theorem rooted_of_isBare {path : List Char} (h : IsBare path) :
    (⟨[], [], [], [], path, []⟩ : Target).rooted = path := by
  have hplain := h.plain
  obtain ⟨rest, rfl, hrest⟩ := h.rooted
  simp only [Target.rooted, Target.isAbsolute, Target.hasAuthority, ne_eq, not_true_eq_false, decide_false,
    Bool.and_self, Bool.or_self, Bool.false_eq_true, or_self, false_and, if_false, dropWhile_slash hrest]
  exact hplain

/-- A bare path is decoded as it stands. -/
theorem decodedPath_of_isBare {path : List Char} (h : IsBare path) :
    decodedPath (String.ofList path) = .ok (percentDecode (String.ofList path)).toList := by
  have hbefore : path.takeWhile (!Target.isControl ·) = path :=
    List.takeWhile_eq_self_iff.2 fun c hc => by rw [(h.spec hc).1.1]; rfl
  have hlength := h.length
  simp only [decodedPath, String.toList_ofList]
  rw [if_neg (by omega), hbefore, List.drop_length]
  simp only
  rw [ofChars_of_isBare h, fault?_of_isBare h, rooted_of_isBare h]

theorem splitAt_of_not_mem {mark : Char} {s : List Char} (h : mark ∉ s) : splitAt mark s = [s] := by
  induction s with
  | nil => rfl
  | cons c rest ih =>
    obtain ⟨hc, hrest⟩ := not_or.1 (List.mem_cons.not.1 h)
    have hne : c ≠ mark := fun he => hc he.symm
    rw [splitAt, ih hrest]
    simp only
    rw [if_neg hne]

theorem splitAt_cons_of_ne {mark c : Char} (hc : c ≠ mark) {s part : List Char} {parts : List (List Char)}
    (h : splitAt mark s = part :: parts) : splitAt mark (c :: s) = (c :: part) :: parts := by
  rw [splitAt, h]
  simp only
  rw [if_neg hc]

/-- The last segment stays, unless it is a step. -/
theorem followDots_last {segment : List Char} (hdot : segment ≠ ['.']) (hdots : segment ≠ ['.', '.'])
    (done : List (List Char)) : followDots done [segment] = done.reverse ++ [segment] := by
  unfold followDots
  split
  · rename_i he
    cases he
  · rename_i he
    exact absurd (List.cons.inj he).1 hdot
  · rename_i he
    exact absurd (List.cons.inj he).1 hdots
  · rename_i part r _ _ he
    obtain ⟨rfl, rfl⟩ := List.cons.inj he
    rw [followDots, List.reverse_cons]

theorem withoutDots_offsetPath {segment : List Char} (hslash : '/' ∉ segment) (hdot : segment ≠ ['.'])
    (hdots : segment ≠ ['.', '.']) : withoutDots (offsetPath segment) = offsetPath segment := by
  have hlast : splitAt '/' ('/' :: segment) = [[], segment] := by
    rw [splitAt, splitAt_of_not_mem hslash]
    rfl
  have hname (name : List Char) (hn : '/' ∉ name) :
      splitAt '/' (name ++ '/' :: segment) = [name, segment] := by
    induction name with
    | nil => exact hlast
    | cons c rest ih =>
      obtain ⟨hc, hrest⟩ := not_or.1 (List.mem_cons.not.1 hn)
      exact splitAt_cons_of_ne (fun he => hc he.symm) (ih hrest)
  have hsplit : splitAt '/' (offsetPath segment) = [[], "offsets".toList, segment] := by
    have hpath : offsetPath segment = '/' :: ("offsets".toList ++ '/' :: segment) := rfl
    rw [hpath, splitAt, hname _ (by decide)]
    rfl
  have hfollow : followDots [] [[], "offsets".toList, segment] = [[], "offsets".toList, segment] :=
    followDots_last hdot hdots ["offsets".toList, []]
  rw [withoutDots, hsplit, hfollow]
  rfl

theorem isBareChar_of_isPlain {c : Char} (h : isPlain c = true) : isBareChar c = true := by
  obtain ⟨⟨hlow, hhigh⟩, -⟩ := isPlain_spec h
  have hsafe : Target.isUnsafeInPath c = false := by
    have hnone : ([' ', '"', '#', '<', '>', '?', '`', '\x7b', '\x7d'].all fun x => !isPlain x) = true := by decide
    rw [Bool.eq_false_iff]
    intro hc
    have hnot := List.all_eq_true.1 hnone c (List.contains_iff_mem.1 hc)
    rw [h] at hnot
    cases hnot
  have hpath : Target.isPathChar c = true := by
    have hends : c ≠ '?' ∧ c ≠ '#' := by
      constructor <;> rintro rfl <;> exact absurd h (by decide)
    simpa [Target.isPathChar] using hends
  have hcontrol : Target.isControl c = false := by
    simp only [Target.isControl, Bool.or_eq_false_iff, decide_eq_false_iff_not]
    omega
  simp only [isBareChar, hsafe, hpath, hcontrol, Bool.not_false, Bool.and_true, Bool.true_and, Bool.and_eq_true,
    decide_eq_true_eq]
  omega

/-- The request for a stream's page holds nothing that keeps it from arriving, but for a name that a client takes for a
step in the path, and for a length that it refuses. -/
theorem isBare_offsetPath {segment : List Char} {bytes : List UInt8} (h : Encodes segment bytes)
    (hdot : segment ≠ ['.']) (hdots : segment ≠ ['.', '.']) (hlength : segment.length ≤ 65527) :
    IsBare (offsetPath segment) where
  rooted := by
    refine ⟨"offsets".toList ++ '/' :: segment, rfl, ?_⟩
    change some 'o' ≠ some '/'
    decide
  chars := by
    have hfixed : ('%' :: offsetPath []).all isBareChar = true := by decide
    obtain ⟨hpercent, hbefore⟩ := Bool.and_eq_true_iff.1 hfixed
    have hchars : segment.all isBareChar = true := by
      refine List.all_eq_true.2 fun c hc => ?_
      rcases h.chars c hc with rfl | hplain
      · exact hpercent
      · exact isBareChar_of_isPlain hplain
    have happend : offsetPath segment = offsetPath [] ++ segment := rfl
    rw [happend, List.all_append, hbefore, hchars]
    rfl
  plain := by
    refine withoutDots_offsetPath (fun hm => ?_) hdot hdots
    rcases h.chars _ hm with he | hc
    · cases he
    · exact absurd hc (by decide)
  length := by
    have happend : offsetPath segment = offsetPath [] ++ segment := rfl
    have hfixed : (offsetPath []).length = 9 := by decide
    rw [happend, List.length_append, hfixed, Target.maxLength]
    omega

/-! ### What the pages show -/

/-- The page of a stream. -/
def offsetPage (stream : String) : Option Int → Response
  | some n => ⟨200, .offset stream n⟩
  | none => ⟨404, .detail ("No offset stored for stream " ++ stream)⟩

/-- An answer shows what is read: it is the page of what is read, or it fails with what the reading fails with. -/
def Shows {α : Type} (page : α → Response) (action : StoreAction) (read : Except Failure α)
    (answer : Except Failure Response) : Prop :=
  (∃ a, read = .ok a ∧ answer = .ok (page a)) ∨ ∃ f, read = .error (f.during action) ∧ answer = .error f

/-- What is read for a caller and what is read for a page are one reading. -/
theorem shows_of_reading {α : Type} (page : α → Response) (action : StoreAction) (reading : Except Failure α) :
    Shows page action (reading.mapError (·.during action)) (reading.map page) := by
  cases reading with
  | ok a => exact .inl ⟨a, rfl, rfl⟩
  | error f => exact .inr ⟨f, rfl, rfl⟩

variable {l : Ledger}

theorem answer_offsetPath (outages : Outages) {name : String} (hne : name ≠ "") (hslash : '/' ∉ name.toList)
    (l : Ledger) :
    Shows (offsetPage name) (.readOffset (.text name)) (l.getOffset outages (.text name))
      (answer outages "GET" (offsetPath name.toList) l) := by
  have hchars : name.toList ≠ [] := by simpa using hne
  have hroute : answer outages "GET" (offsetPath name.toList) l =
      (Ledger.readStore outages .get (Ledger.lookUp (.text name)) l).map (offsetPage name) := by
    rw [answer, ofPath?_offsetPath, if_pos ⟨hchars, hslash⟩, String.ofList_toList]
    simp only [Route.allows, get, decide_true, if_true]
    congr 1
  rw [hroute]
  exact shows_of_reading _ _ _

/-- A name with a slash has no page: at best the request is sent on to another path. -/
theorem answer_offsetPath_of_slash (outages : Outages) {name : String} (hslash : '/' ∈ name.toList) (l : Ledger) :
    answer outages "GET" (offsetPath name.toList) l = .ok ⟨307, .empty⟩ ∨
      answer outages "GET" (offsetPath name.toList) l = .ok ⟨404, .detail "Not Found"⟩ := by
  rw [answer, ofPath?_offsetPath, if_neg fun h => h.2 hslash]
  simp only
  split
  · exact .inl rfl
  · exact .inr rfl

theorem answer_offsets (outages : Outages) (l : Ledger) :
    Shows (fun entries => ⟨200, .offsets entries⟩) .listOffsets (l.listOffsets outages)
      (answer outages "GET" Route.offsetsPath l) := by
  have hroute : answer outages "GET" Route.offsetsPath l =
      (Ledger.readStore outages .listOffsets (·.offsets.mapError .storedOffset) l).map
        fun entries => ⟨200, .offsets entries⟩ := rfl
  rw [hroute]
  exact shows_of_reading _ _ _

theorem answer_health (l : Ledger) : answer [] "GET" "/health".toList l =
    .ok ⟨200, .health true (some (l.store.rows Catalog.offsetsTable).length)⟩ := rfl

end FeedLedger.Http

namespace FeedLedger

theorem Store.length_readEntries {cells : List (String × Cell)} {entries : List (String × Int)}
    (h : readEntries cells = .ok entries) : entries.length = cells.length := by
  induction cells generalizing entries with
  | nil =>
    cases h
    rfl
  | cons cell rest ih =>
    simp only [readEntries] at h
    split at h
    · cases h
    · cases h
    · rename_i more hn hmore
      cases h
      rw [List.length_cons, List.length_cons, ih hmore]

/-- Every row of the offsets stands for a stream that is listed. -/
theorem Store.Titled.length_offsets {s : Store} (h : s.Titled) {entries : List (String × Int)}
    (he : s.offsets = .ok entries) : entries.length = (s.rows Catalog.offsetsTable).length := by
  have hnamed : ∀ r ∈ s.rows Catalog.offsetsTable, (Store.offsetOfRow? r).isSome = true := by
    intro r hr
    obtain ⟨stream, hstream⟩ := h r hr
    rw [offsetOfRow?, hstream]
    rfl
  rw [length_readEntries he, offsetCells, (Ascending.sort_perm _ _).length_eq, offsetEntries]
  exact List.filterMap_length_eq_length.2 hnamed

theorem Ledger.offsets_of_listOffsets {l : Ledger} {entries : List (String × Int)}
    (h : l.listOffsets [] = .ok entries) : l.store.offsets = .ok entries := by
  have hread : l.listOffsets [] =
      (l.store.offsets.mapError Failure.storedOffset).mapError (·.during .listOffsets) := rfl
  rw [hread] at h
  cases he : l.store.offsets with
  | ok found =>
    rw [he] at h
    cases h
    rfl
  | error f =>
    rw [he] at h
    cases h

/-- Under the built-in schemas the offsets are rows of their own, one for each stream. -/
theorem Reached.lists {l : Ledger} (h : Reached l) : ∃ entries, l.store.Lists entries := by
  refine (h.holds (P := fun s => s.Sound ∧ ∃ entries, s.Lists entries) ?_ ?_).2
  · exact ⟨Store.sound_empty, [], rfl, List.nodup_nil⟩
  · rintro o rs chunks before after hc ⟨hs, entries, hentries⟩
    obtain ⟨name, -, hrows⟩ := hc.puts_offset hs
    refine ⟨hc.sound hs, Keyed.put name o.offset entries, ?_, Keyed.nodup_keys_put hentries.2 _ _⟩
    rw [hrows, hentries.1, Store.putOffset_map hentries.2]

namespace Http

open Text

theorem respond_of_isBare {path : List Char} (h : IsBare path) (l : Ledger) :
    respond [] "GET" (String.ofList path) l =
      (answer [] "GET" (percentDecode (String.ofList path)).toList l).mapError .failed := by
  have hmethod : "GET".toUpper = "GET" := by
    rw [← String.toList_inj, String.toUpper, String.toList_map]
    rfl
  rw [respond, decodedPath_of_isBare h, hmethod]

/-- A fixed path that is bare and has nothing to decode. -/
theorem respond_of_fixed {path : List Char} (h : IsBare path)
    (hdecoded : percentDecode (String.ofList path) = String.ofList path) (l : Ledger) :
    respond [] "GET" (String.ofList path) l = (answer [] "GET" path l).mapError .failed := by
  rw [respond_of_isBare h, hdecoded, String.toList_ofList]

theorem percentDecode_offsetPath {name : String} {segment : List Char} (h : Encodes segment (utf8Bytes name)) :
    (percentDecode (String.ofList (offsetPath segment))).toList = offsetPath name.toList := by
  have hall : ((offsetPath []).all fun c => c.toNat < 128 && c ≠ '%') = true := by decide
  have hascii : ∀ c ∈ offsetPath [], c.toNat < 128 ∧ c ≠ '%' := fun c hc => by
    simpa using List.all_eq_true.1 hall c hc
  exact percentDecode_of_encodes hascii h

/-- A stream's page shows the offset that is read for it, the list shows the offsets that are read, and the health page
counts them. A name with a slash, escaped or not, has no page: its request is not answered or sent elsewhere. Every name
has a segment that encodes it, by `Text.exists_encodes`. -/
theorem pages_show_offsets_of_names_without_slashes {l : Ledger} (hl : Opened l) :
    (∀ (name : String) (segment : List Char), name ≠ "" → Encodes segment (utf8Bytes name) →
      let target := String.ofList (offsetPath segment)
      let answered := answer [] "GET" (percentDecode target).toList l
      (if '/' ∈ name.toList then answered = .ok ⟨307, .empty⟩ ∨ answered = .ok ⟨404, .detail "Not Found"⟩
        else Shows (offsetPage name) (.readOffset (.text name)) (l.getOffset [] (.text name)) answered) ∧
      (segment ≠ ['.'] → segment ≠ ['.', '.'] → segment.length ≤ 65527 →
        respond [] "GET" target l = answered.mapError .failed)) ∧
    Shows (fun entries => ⟨200, .offsets entries⟩) .listOffsets (l.listOffsets [])
      (answer [] "GET" "/offsets".toList l) ∧
    respond [] "GET" "/offsets" l = (answer [] "GET" "/offsets".toList l).mapError .failed ∧
    (∀ entries, l.listOffsets [] = .ok entries →
      respond [] "GET" "/health" l = .ok ⟨200, .health true (some entries.length)⟩) ∧
    (Reached l → ∃ (found : String → Option Int) (entries : List (String × Int)),
      (∀ stream, l.getOffset [] (.text stream) = .ok (found stream)) ∧ l.listOffsets [] = .ok entries ∧
      ∀ stream n, (stream, n) ∈ entries ↔ found stream = some n) := by
  refine ⟨fun name segment hne hsegment => ?_, answer_offsets [] l, ?_, fun entries hentries => ?_, fun h => ?_⟩
  · have hpath := percentDecode_offsetPath hsegment
    intro target answered
    refine ⟨?_, fun hdot hdots hlength => respond_of_isBare (isBare_offsetPath hsegment hdot hdots hlength) l⟩
    simp only [answered, target, hpath]
    split
    · rename_i hslash
      exact answer_offsetPath_of_slash [] hslash l
    · rename_i hslash
      exact answer_offsetPath [] hne hslash l
  · have hbare : IsBare "/offsets".toList := ⟨⟨"offsets".toList, rfl, by decide⟩, by decide, by decide, by decide⟩
    exact respond_of_fixed hbare (by decide +kernel) l
  · have hbare : IsBare "/health".toList := ⟨⟨"health".toList, rfl, by decide⟩, by decide, by decide, by decide⟩
    have hfixed : respond [] "GET" "/health" l = (answer [] "GET" "/health".toList l).mapError .failed :=
      respond_of_fixed hbare (by decide +kernel) l
    rw [hfixed, answer_health, hl.titled.length_offsets (Ledger.offsets_of_listOffsets hentries)]
    rfl
  · obtain ⟨entries, hlists⟩ := h.lists
    refine ⟨fun stream => Keyed.get? stream entries, _, Ledger.getOffset_of_lists hlists,
      Ledger.listOffsets_of_lists hlists, fun stream n => ?_⟩
    rw [(Ascending.sort_perm _ entries).mem_iff]
    exact ⟨fun hm => Keyed.get?_of_mem hlists.2 hm, Keyed.mem_of_get?⟩

/-- A ledger with one stored offset. -/
def oneOffset (name : String) : Ledger :=
  (Ledger.fresh.setOffset (.builtin 1000 false) [] (.text name) (.int 5) []).ledger

theorem opened_oneOffset (name : String) : Opened (oneOffset name) :=
  Opened.call .fresh Registry.schema? 1000 false [] (.setOffset (.text name) (.int 5))

/-- A name with a blank, a percent sign and a letter beyond ASCII has its page. -/
theorem pages_show_offsets_of_names_without_slashes_beyond_ascii :
    let l := oneOffset "a %\u00fc"
    l.getOffset [] (.text "a %\u00fc") = .ok (some 5) ∧
      respond [] "GET" "/offsets/a%20%25%c3%BC" l = .ok ⟨200, .offset "a %\u00fc" 5⟩ ∧
      respond [] "GET" "/health" l = .ok ⟨200, .health true (some 1)⟩ := by
  intro l
  have hget : l.getOffset [] (.text "a %\u00fc") = .ok (some 5) := eq_ok_of_toOption (by decide +kernel)
  have hlist : l.listOffsets [] = .ok [("a %\u00fc", 5)] := eq_ok_of_toOption (by decide +kernel)
  have hsegment : Encodes "a%20%25%c3%BC".toList (utf8Bytes "a %\u00fc") :=
    .plain (by decide) (.escaped true true 0x20 (.escaped true true 0x25 (.escaped false true 0xC3
      (.escaped true true 0xBC .nil))))
  obtain ⟨hpage, -, -, hhealth, -⟩ :=
    pages_show_offsets_of_names_without_slashes (opened_oneOffset "a %\u00fc")
  obtain ⟨hshows, hrespond⟩ := hpage "a %\u00fc" "a%20%25%c3%BC".toList (by decide) hsegment
  have htarget : String.ofList (offsetPath "a%20%25%c3%BC".toList) = "/offsets/a%20%25%c3%BC" := by decide +kernel
  have hresponse := hrespond (by decide) (by decide) (by decide)
  rw [if_neg (by decide)] at hshows
  refine ⟨hget, ?_, hhealth _ hlist⟩
  rw [← htarget, hresponse]
  rcases hshows with ⟨found, hfound, hanswer⟩ | ⟨f, hfailed, -⟩
  · rw [hanswer]
    cases hget.symm.trans hfound
    rfl
  · cases hget.symm.trans hfailed

/-- An offset that is stored under a name with a slash is read and listed, but has no page. -/
theorem offset_of_name_with_slash_has_no_page :
    let l := oneOffset "a/b"
    l.getOffset [] (.text "a/b") = .ok (some 5) ∧ l.listOffsets [] = .ok [("a/b", 5)] ∧
      Encodes "a%2Fb".toList (utf8Bytes "a/b") ∧
      respond [] "GET" "/offsets/a%2Fb" l = .ok ⟨404, .detail "Not Found"⟩ := by
  have hsegment : Encodes "a%2Fb".toList (utf8Bytes "a/b") :=
    .plain (by decide) (.escaped true true 0x2F (.plain (by decide) .nil))
  exact ⟨eq_ok_of_toOption (by decide +kernel), eq_ok_of_toOption (by decide +kernel), hsegment,
    eq_ok_of_toOption (by decide +kernel)⟩

end Http

end FeedLedger
