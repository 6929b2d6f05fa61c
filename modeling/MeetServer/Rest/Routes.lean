import MeetServer.Contracts
import MeetServer.Foundation.UrlPath

/-!
# The routes between realtime and the sfu

`libs/media-contracts` builds the paths and `MediaRoomsController` takes them
apart.  The values in a path come from clients and are not escaped, so a request
reaches its handler with its values exactly when the values have nothing in
them that means something in a URL.
-/

namespace MeetServer.Rest

open MeetServer.Foundation

inductive Method where
  | get
  | put
  | post
  | delete
  deriving DecidableEq, Repr

inductive Route where
  | stats
  | createOrGetRoom
  | createTransport
  | connectTransport
  | produce
  | consume
  | resumeConsumer
  | pauseProducer
  | resumeProducer
  | removePeer
  | closeRoom
  | startRecording
  | stopRecording
  deriving DecidableEq, Repr

def mediaRoomsBasePath : String := "media-rooms"

/-- `MEDIA_ROOM_ROUTES`. -/
def Route.pattern : Route → String
  | .stats => "stats"
  | .createOrGetRoom => ":roomId"
  | .createTransport => ":roomId/peers/:peerId/transports"
  | .connectTransport =>
      ":roomId/peers/:peerId/transports/:transportId/connect"
  | .produce => ":roomId/peers/:peerId/transports/:transportId/produce"
  | .consume => ":roomId/peers/:peerId/consumers"
  | .resumeConsumer => ":roomId/peers/:peerId/consumers/:consumerId/resume"
  | .pauseProducer => ":roomId/peers/:peerId/producers/:producerId/pause"
  | .resumeProducer => ":roomId/peers/:peerId/producers/:producerId/resume"
  | .removePeer => ":roomId/peers/:peerId"
  | .closeRoom => ":roomId"
  | .startRecording => ":roomId/recording/start"
  | .stopRecording => ":roomId/recording/stop"

/-- The method of the client's request and of the handler's decorator. -/
def Route.method : Route → Method
  | .stats => .get
  | .createOrGetRoom => .put
  | .createTransport | .connectTransport | .produce | .consume
  | .resumeConsumer | .pauseProducer | .resumeProducer | .startRecording
  | .stopRecording => .post
  | .removePeer | .closeRoom => .delete

/-- The handlers of `MediaRoomsController`, in order. -/
def Route.all : List Route :=
  [.stats, .createOrGetRoom, .createTransport, .connectTransport, .produce,
    .consume, .resumeConsumer, .pauseProducer, .resumeProducer, .removePeer,
    .startRecording, .stopRecording, .closeRoom]

/-! ## `buildPath` -/

abbrev Params := String → String

def split (text : String) : List String :=
  (text.toList.splitOn '/').map String.ofList

def join : List String → String
  | [] => ""
  | [segment] => segment
  | segment :: segments => segment ++ "/" ++ join segments

def resolve (params : Params) (segment : String) : String :=
  match segment.toList with
  | ':' :: key => params (String.ofList key)
  | _ => segment

def buildPath (pattern : String) (params : Params) : String :=
  join ((split pattern).map (resolve params))

def buildMediaRoomPath (pattern : String) (params : Params) : String :=
  "/" ++ mediaRoomsBasePath ++ "/" ++ buildPath pattern params

/-! ## The controller -/

inductive PatternSegment where
  | literal (text : List Char)
  | token (key : String)
  deriving DecidableEq

def segmentOf : List Char → PatternSegment
  | ':' :: key => .token (String.ofList key)
  | text => .literal text

def patternSegment (segment : String) : PatternSegment :=
  segmentOf segment.toList

def Route.segments (route : Route) : List PatternSegment :=
  (split (mediaRoomsBasePath ++ "/" ++ route.pattern)).map patternSegment

/-- Routing ignores the case of literal segments. -/
def PatternSegment.accepts : PatternSegment → List Char → Bool
  | .literal text, segment => segment.map Char.toLower = text
  | .token _, segment => segment ≠ []

def accepts : List PatternSegment → List (List Char) → Bool
  | [], [] => true
  | p :: pattern, segment :: segments =>
      p.accepts segment && accepts pattern segments
  | _, _ => false

/-- The values of the tokens, percent-decoded. -/
def readParams :
    List PatternSegment → List (List Char) → Option (List (String × String))
  | .token key :: pattern, segment :: segments => do
      let value ← percentDecode segment
      let params ← readParams pattern segments
      return (key, String.ofList value) :: params
  | .literal _ :: pattern, _ :: segments => readParams pattern segments
  | _, _ => some []

/-- A slash at the end makes no difference. -/
def dropTrailing (segments : List (List Char)) : List (List Char) :=
  if segments.getLast? = some [] then segments.dropLast else segments

/-- The path of the request that the HTTP client sends. -/
def requestPath (path : String) : List (List Char) :=
  (urlPath path.toList).map percentEncode

/-- The first handler that accepts the path, and its parameters.  There is none
if no handler accepts it or a parameter cannot be decoded. -/
def dispatch (method : Method) (segments : List (List Char)) :
    Option (Route × List (String × String)) :=
  let segments := dropTrailing segments
  match Route.all.find? fun route =>
      route.method = method && accepts route.segments segments with
  | none => none
  | some route => (readParams route.segments segments).map (route, ·)

def tokens : List PatternSegment → List String
  | [] => []
  | .token key :: pattern => key :: tokens pattern
  | .literal _ :: pattern => tokens pattern

def Route.tokens (route : Route) : List String := Rest.tokens route.segments

/-- The request for `route` reaches its handler with the values it was made
from. -/
def RoundTrips (route : Route) (params : Params) : Prop :=
  dispatch route.method (requestPath (buildMediaRoomPath route.pattern params)) =
    some (route, route.tokens.map fun key => (key, params key))

/-! ## The path -/

/-- What `buildPath` puts in the segment's place. -/
def PatternSegment.text (params : Params) : PatternSegment → List Char
  | .literal text => text
  | .token key => (params key).toList

theorem toList_resolve (params : Params) (segment : String) :
    (resolve params segment).toList = (patternSegment segment).text params := by
  unfold resolve patternSegment segmentOf
  generalize htext : segment.toList = text
  cases text with
  | nil => exact htext
  | cons c key =>
      by_cases hc : c = ':'
      · subst hc
        rfl
      · simp [hc, PatternSegment.text, htext]

theorem toPath_join {segments : List String} (h : segments ≠ []) :
    '/' :: (join segments).toList = toPath (segments.map String.toList) := by
  induction segments with
  | nil => exact (h rfl).elim
  | cons segment segments ih =>
      cases segments with
      | nil => simp [join, toPath]
      | cons next segments =>
          have hrest := ih (by simp)
          rw [List.map_cons, toPath, List.flatMap_cons, ← toPath, ← hrest]
          simp [join]

theorem split_append (text : String) :
    split (mediaRoomsBasePath ++ "/" ++ text) =
      mediaRoomsBasePath :: split text := by
  have hbase : ∀ c ∈ mediaRoomsBasePath.toList, (c == '/') = false := by
    have hall : mediaRoomsBasePath.toList.all (· != '/') := by decide
    simpa using hall
  have htext : (mediaRoomsBasePath ++ "/" ++ text).toList =
      mediaRoomsBasePath.toList ++ '/' :: text.toList := by
    simp
  rw [split, htext, List.splitOn_eq_splitOnP,
    List.splitOnP_append_cons_of_forall_mem hbase '/' rfl, List.map_cons,
    String.ofList_toList]
  rfl

theorem Route.segments_eq (route : Route) :
    route.segments = .literal mediaRoomsBasePath.toList ::
      (split route.pattern).map patternSegment := by
  rw [segments, split_append, List.map_cons]
  rfl

theorem toList_buildMediaRoomPath (route : Route) (params : Params) :
    (buildMediaRoomPath route.pattern params).toList =
      toPath (route.segments.map (PatternSegment.text params)) := by
  have hne : (split route.pattern).map (resolve params) ≠ [] := by
    cases route <;> simp [split]
  have hresolved : ((split route.pattern).map (resolve params)).map String.toList =
      ((split route.pattern).map patternSegment).map
        (PatternSegment.text params) := by
    rw [List.map_map, List.map_map]
    exact List.map_congr_left fun segment _ => toList_resolve params segment
  rw [route.segments_eq, List.map_cons, toPath, List.flatMap_cons, ← toPath,
    ← hresolved, ← toPath_join hne]
  simp [buildMediaRoomPath, buildPath, PatternSegment.text]

/-! ## What comes back -/

theorem size_of_literal {text segment : List Char} (htext : '%' ∉ text)
    (h : (percentEncode segment).map Char.toLower = text) :
    textSize text ≤ textSize segment := by
  have hcount : (percentEncode segment).count '%' = 0 := by
    refine List.count_eq_zero.2 fun hmem => htext ?_
    exact h ▸ List.mem_map_of_mem (f := Char.toLower) hmem
  have hsize := textSize_percentEncode segment
  rw [← h, textSize_map_toLower]
  omega

theorem readParams_token {params : Params} {key : String}
    {pattern : List PatternSegment} {segment : List Char}
    {segments : List (List Char)}
    (h : readParams (.token key :: pattern) (segment :: segments) =
      some ((tokens (.token key :: pattern)).map fun key => (key, params key))) :
    percentDecode segment = some (params key).toList ∧
      readParams pattern segments =
        some ((tokens pattern).map fun key => (key, params key)) := by
  simp only [readParams, tokens, List.map_cons, Option.bind_eq_bind,
    Option.bind_eq_some_iff, Option.pure_def, Option.some.injEq, List.cons.injEq,
    Prod.mk.injEq] at h
  obtain ⟨value, hvalue, rest, hrest, ⟨-, hparam⟩, rfl⟩ := h
  refine ⟨?_, hrest⟩
  rw [hvalue, ← hparam, String.toList_ofList]

/-- Values that come back have come with all their bytes; if there were no more
bytes than that, they have come as they are. -/
theorem read_size {params : Params} {pattern : List PatternSegment}
    {segments : List (List Char)}
    (hplain : ∀ text, .literal text ∈ pattern → '%' ∉ text)
    (haccepts : accepts pattern (segments.map percentEncode))
    (hread : readParams pattern (segments.map percentEncode) =
      some ((tokens pattern).map fun key => (key, params key))) :
    pathSize (pattern.map (PatternSegment.text params)) ≤ pathSize segments ∧
      (pathSize segments ≤ pathSize (pattern.map (PatternSegment.text params)) →
        ∀ key, .token key ∈ pattern → (params key).toList ∈ segments ∧
          '%' ∉ (params key).toList ∧ (params key).toList ≠ []) := by
  induction pattern generalizing segments with
  | nil => exact ⟨Nat.zero_le _, nofun⟩
  | cons p pattern ih =>
      cases segments with
      | nil => cases haccepts
      | cons segment segments =>
          obtain ⟨hhead, htail⟩ := Bool.and_eq_true_iff.1 haccepts
          have ih := @ih segments
            (fun text htext => hplain text (List.mem_cons_of_mem p htext)) htail
          simp only [List.map_cons, pathSize_cons]
          cases p with
          | literal text =>
              obtain ⟨hle, hsame⟩ := ih hread
              have hsize := size_of_literal (hplain text List.mem_cons_self)
                (of_decide_eq_true hhead)
              simp only [PatternSegment.text]
              refine ⟨by omega, fun h key hkey => ?_⟩
              obtain ⟨hmem, hrest⟩ := hsame (by omega) key (by simpa using hkey)
              exact ⟨List.mem_cons_of_mem segment hmem, hrest⟩
          | token key =>
              obtain ⟨hdecode, hread⟩ := readParams_token hread
              obtain ⟨hle, hsame⟩ := ih hread
              have hsize := textSize_percentDecode hdecode
              simp only [PatternSegment.text]
              refine ⟨by omega, fun h key' hkey' => ?_⟩
              rcases List.mem_cons.1 hkey' with heq | hkey'
              · obtain rfl := PatternSegment.token.inj heq
                have hpercent : '%' ∉ segment :=
                  List.count_eq_zero.1 (by omega)
                rw [percentDecode_percentEncode hpercent] at hdecode
                obtain rfl := Option.some.inj hdecode
                refine ⟨List.mem_cons_self, hpercent, ?_⟩
                rintro hnil
                rw [hnil] at hhead
                cases hhead
              · obtain ⟨hmem, hrest⟩ := hsame (by omega) key' hkey'
                exact ⟨List.mem_cons_of_mem segment hmem, hrest⟩

/-! ## The table of routes -/

/-- Some path is accepted by both, as far as their literals tell. -/
def compatible : List PatternSegment → List PatternSegment → Bool
  | [], [] => true
  | .literal text :: pattern, .literal text' :: pattern' =>
      text = text' && compatible pattern pattern'
  | _ :: pattern, _ :: pattern' => compatible pattern pattern'
  | _, _ => false

theorem compatible_of_accepts {pattern pattern' : List PatternSegment}
    {segments : List (List Char)} (h : accepts pattern segments)
    (h' : accepts pattern' segments) : compatible pattern pattern' := by
  induction pattern generalizing pattern' segments with
  | nil =>
      cases segments with
      | nil => cases pattern' <;> first | rfl | cases h'
      | cons segment segments => cases h
  | cons p pattern ih =>
      cases segments with
      | nil => cases h
      | cons segment segments =>
          cases pattern' with
          | nil => cases h'
          | cons p' pattern' =>
              obtain ⟨hp, h⟩ := Bool.and_eq_true_iff.1 h
              obtain ⟨hp', h'⟩ := Bool.and_eq_true_iff.1 h'
              have hrest := ih h h'
              cases p with
              | token key => exact hrest
              | literal text =>
                  cases p' with
                  | token key => exact hrest
                  | literal text' =>
                      have heq : text = text' :=
                        (of_decide_eq_true hp).symm.trans (of_decide_eq_true hp')
                      simp [compatible, heq, hrest]

theorem Route.segments_of_chars {route : Route} {chars : List Char}
    (h : route.pattern = String.ofList chars) :
    route.segments = .literal mediaRoomsBasePath.toList ::
      (chars.splitOn '/').map segmentOf := by
  rw [segments_eq, h, split, String.toList_ofList, List.map_map]
  congr 1
  refine List.map_congr_left fun segment _ => ?_
  simp [patternSegment]

/-- No two routes with one method accept the same path. -/
theorem Route.eq_of_compatible {route route' : Route}
    (hmethod : route.method = route'.method)
    (h : compatible route.segments route'.segments) : route = route' := by
  cases route <;> cases route' <;> first
    | rfl
    | (cases hmethod; done)
    | (rw [segments_of_chars rfl, segments_of_chars rfl] at h
       revert h
       decide +kernel)

/-- What the literals of the patterns are like. -/
structure PlainText (text : List Char) : Prop where
  clean : CleanText text
  encoded : percentEncode text = text
  lower : text.map Char.toLower = text
  last : ∀ c ∈ text, isC0Control c = false

def PatternSegment.isWord : PatternSegment → Bool
  | .literal text =>
      !text.isEmpty && text.all fun c =>
        !isSpecial c && !inPathSet c && c.toLower == c && c != '.'
  | .token _ => true

theorem percentEncode_eq_self {text : List Char}
    (h : ∀ c ∈ text, inPathSet c = false) : percentEncode text = text := by
  induction text with
  | nil => rfl
  | cons c text ih =>
      rw [percentEncode_cons, h c List.mem_cons_self,
        ih fun d hd => h d (List.mem_cons_of_mem c hd)]
      rfl

theorem plainText_of_isWord {text : List Char}
    (h : (PatternSegment.literal text).isWord) : PlainText text := by
  simp only [PatternSegment.isWord, Bool.and_eq_true, Bool.not_eq_true',
    List.isEmpty_eq_false_iff, List.all_eq_true, beq_iff_eq, bne_iff_ne] at h
  obtain ⟨hne, hall⟩ := h
  have hdot : '.' ∉ text := fun hmem => (hall _ hmem).2 rfl
  refine ⟨⟨hne, fun c hc => (hall c hc).1.1.1, ?_, ?_⟩,
    percentEncode_eq_self fun c hc => (hall c hc).1.1.2, ?_, fun c hc => ?_⟩
  · rintro rfl
    simp at hdot
  · rintro rfl
    simp at hdot
  · conv_rhs => rw [← List.map_id text]
    exact List.map_congr_left fun c hc => (hall c hc).1.2
  · have hset := (hall c hc).1.1.2
    simp only [inPathSet, Bool.or_eq_false_iff] at hset
    exact hset.1.1

theorem Route.isWord_segments (route : Route) :
    ∀ p ∈ route.segments, p.isWord := by
  cases route <;> rw [segments_of_chars rfl] <;> decide +kernel

theorem Route.plainText {route : Route} {text : List Char}
    (h : .literal text ∈ route.segments) : PlainText text :=
  plainText_of_isWord (route.isWord_segments _ h)

theorem Route.mem_all (route : Route) : route ∈ Route.all := by
  cases route <;> decide

theorem mem_tokens {key : String} {pattern : List PatternSegment} :
    key ∈ tokens pattern ↔ .token key ∈ pattern := by
  induction pattern with
  | nil => simp [tokens]
  | cons p pattern ih => cases p <;> simp [tokens, ih]

/-! ## The condition -/

/-- The token at the end of the pattern, if there is one. -/
def Route.lastToken (route : Route) : Option String :=
  match route.segments.getLast? with
  | some (.token key) => some key
  | _ => none

/-- The values have no special characters, are no dot segments, and nothing is
stripped from the end of the path. -/
structure Survives (route : Route) (params : Params) : Prop where
  clean : ∀ key ∈ route.tokens, CleanText (params key).toList
  last : ∀ key ∈ route.lastToken,
    ∀ c ∈ (params key).toList.getLast?, isC0Control c = false

theorem Survives.iff {route : Route} {params : Params} : Survives route params ↔
    (∀ key ∈ route.tokens, CleanText (params key).toList) ∧
      route.lastToken.all fun key =>
        (params key).toList.getLast?.all fun c => !isC0Control c := by
  simp only [Option.all_eq_true, Bool.not_eq_true']
  exact ⟨fun h => ⟨h.clean, h.last⟩, fun h => ⟨h.1, h.2⟩⟩

instance (route : Route) (params : Params) : Decidable (Survives route params) :=
  decidable_of_iff _ Survives.iff.symm

/-- The segments of the path that is built. -/
def Route.texts (route : Route) (params : Params) : List (List Char) :=
  route.segments.map (PatternSegment.text params)

theorem dispatch_eq_some {method : Method} {segments : List (List Char)}
    {route : Route} {values : List (String × String)} :
    dispatch method segments = some (route, values) ↔
      route.method = method ∧ accepts route.segments (dropTrailing segments) ∧
        readParams route.segments (dropTrailing segments) = some values := by
  unfold dispatch
  simp only
  constructor
  · intro h
    split at h
    · cases h
    · next found hfound =>
      obtain ⟨values', hread, heq⟩ := Option.map_eq_some_iff.1 h
      cases heq
      have haccepts := List.find?_some hfound
      simp only [Bool.and_eq_true, decide_eq_true_eq] at haccepts
      exact ⟨haccepts.1, haccepts.2, hread⟩
  · rintro ⟨rfl, haccepts, hread⟩
    split
    · next hnone =>
      have hnot := List.find?_eq_none.1 hnone route route.mem_all
      simp [haccepts] at hnot
    · next found hfound =>
      have hfound := List.find?_some hfound
      simp only [Bool.and_eq_true, decide_eq_true_eq] at hfound
      obtain rfl := Route.eq_of_compatible hfound.1
        (compatible_of_accepts hfound.2 haccepts)
      rw [hread]
      rfl

/-! ## The round trip -/

variable {route : Route} {params : Params}

theorem toList_path (route : Route) (params : Params) :
    (buildMediaRoomPath route.pattern params).toList =
      toPath (route.texts params) :=
  toList_buildMediaRoomPath route params

theorem dropTrailing_cases (segments : List (List Char)) :
    ∃ segments' : List (List Char), dropTrailing (segments.map percentEncode) =
        segments'.map percentEncode ∧ segments'.Sublist segments := by
  unfold dropTrailing
  split
  · exact ⟨segments.dropLast, by rw [List.map_dropLast],
      List.dropLast_sublist segments⟩
  · exact ⟨segments, rfl, List.Sublist.refl segments⟩

theorem pathSize_sublist {segments segments' : List (List Char)}
    (h : segments'.Sublist segments) : pathSize segments' ≤ pathSize segments := by
  induction h with
  | slnil => exact Nat.le_refl _
  | cons segment _ ih =>
      rw [pathSize_cons]
      omega
  | cons_cons segment _ ih =>
      rw [pathSize_cons, pathSize_cons]
      omega

theorem getLast?_toPath {segments : List (List Char)} {segment : List Char}
    (h : segments.getLast? = some segment) (hne : segment ≠ []) :
    (toPath segments).getLast? = segment.getLast? := by
  obtain ⟨before, rfl⟩ := List.getLast?_eq_some_iff.1 h
  rw [toPath, List.flatMap_append, List.flatMap_singleton,
    List.getLast?_append_of_ne_nil _ (by simp)]
  cases segment with
  | nil => exact (hne rfl).elim
  | cons c segment => exact List.getLast?_cons_cons

theorem lastToken_eq_some {key : String} :
    route.lastToken = some key ↔
      route.segments.getLast? = some (.token key) := by
  unfold Route.lastToken
  split
  · next key' hlast => simp [hlast]
  · next hlast =>
    refine ⟨nofun, fun h => (hlast key h).elim⟩

theorem RoundTrips.survives (h : RoundTrips route params) :
    Survives route params := by
  obtain ⟨-, haccepts, hread⟩ := dispatch_eq_some.1 h
  rw [requestPath, toList_path] at haccepts hread
  obtain ⟨segments, hsegments, hsub⟩ :=
    dropTrailing_cases (urlPath (toPath (route.texts params)))
  rw [hsegments] at haccepts hread
  have hpercent : ∀ text, .literal text ∈ route.segments → '%' ∉ text :=
    fun text htext hmem => absurd ((Route.plainText htext).clean.chars _ hmem)
      (by decide)
  obtain ⟨hle, hsame⟩ := read_size hpercent haccepts hread
  rw [← Route.texts] at hle hsame
  have htext := textSize_toPath (route.texts params)
  have hsize := pathSize_sublist hsub
  have hordinary : OrdinaryPath (toPath (route.texts params)) :=
    .of_le (by omega)
  rw [hordinary.urlPath] at hsub hsize
  have htail : pathSize ((toPath (route.texts params)).splitOnP isSlash).tail ≤
      textSize (toPath (route.texts params)) := by
    have hsplit := pathSize_splitOnP (toPath (route.texts params))
    obtain ⟨segment, rest, heq⟩ := List.exists_cons_of_ne_nil
      (List.splitOnP_ne_nil isSlash (toPath (route.texts params)))
    rw [heq, pathSize_cons] at hsplit
    rw [heq, List.tail_cons]
    omega
  have hvalue := hsame (by omega)
  have hclean : ∀ key ∈ route.tokens, CleanText (params key).toList := by
    intro key hkey
    have hmem := mem_tokens.1 hkey
    obtain ⟨hin, hnot, hne⟩ := hvalue key hmem
    have hsegment := hsub.subset hin
    have hslash := isSlash_of_mem_splitOnP (List.mem_of_mem_tail hsegment)
    have hdots := hordinary.dots _ hsegment
    refine ⟨hne, fun c hc => ?_, fun heq => ?_, fun heq => ?_⟩
    · have hpath : c ∈ toPath (route.texts params) :=
        List.mem_flatMap.2 ⟨_, List.mem_map_of_mem hmem, List.mem_cons_of_mem _ hc⟩
      obtain ⟨htab, hend⟩ := hordinary.chars c hpath
      have hpercent : c ≠ '%' := fun heq => hnot (heq ▸ hc)
      simp [isSpecial, hslash c hc, htab, hend, hpercent]
    · rw [heq] at hdots
      exact absurd hdots.1 (by decide)
    · rw [heq] at hdots
      exact absurd hdots.2 (by decide)
  refine ⟨hclean, fun key hkey c hc => hordinary.last c ?_⟩
  have hlast := lastToken_eq_some.1 hkey
  have htexts : (route.texts params).getLast? = some (params key).toList := by
    rw [Route.texts, List.getLast?_map, hlast]
    rfl
  have hmem := mem_tokens.2 (List.mem_of_getLast? hlast)
  rwa [getLast?_toPath htexts (hclean key hmem).ne_nil]

theorem percentEncode_ne_nil {text : List Char} (h : CleanText text) :
    percentEncode text ≠ [] := by
  intro hnil
  have hcount : text.count '%' = 0 :=
    List.count_eq_zero.2 fun hmem => absurd (h.chars _ hmem) (by decide)
  have hsize := textSize_percentEncode text
  rw [hnil, hcount] at hsize
  exact h.ne_nil (textSize_eq_zero (by simpa using hsize.symm))

theorem read_texts {pattern : List PatternSegment}
    (hliteral : ∀ text, .literal text ∈ pattern → PlainText text)
    (htoken : ∀ key, .token key ∈ pattern → CleanText (params key).toList) :
    accepts pattern ((pattern.map (PatternSegment.text params)).map
        percentEncode) ∧
      readParams pattern ((pattern.map (PatternSegment.text params)).map
          percentEncode) =
        some ((tokens pattern).map fun key => (key, params key)) := by
  induction pattern with
  | nil => exact ⟨rfl, rfl⟩
  | cons p pattern ih =>
      obtain ⟨haccepts, hread⟩ := ih
        (fun text htext => hliteral text (List.mem_cons_of_mem p htext))
        (fun key hkey => htoken key (List.mem_cons_of_mem p hkey))
      cases p with
      | literal text =>
          have hplain := hliteral text List.mem_cons_self
          refine ⟨Bool.and_eq_true_iff.2 ⟨?_, haccepts⟩, hread⟩
          simp [PatternSegment.accepts, PatternSegment.text, hplain.encoded,
            hplain.lower]
      | token key =>
          have hclean := htoken key List.mem_cons_self
          have hpercent : '%' ∉ (params key).toList :=
            fun hmem => absurd (hclean.chars _ hmem) (by decide)
          refine ⟨Bool.and_eq_true_iff.2 ⟨?_, haccepts⟩, ?_⟩
          · exact decide_eq_true (percentEncode_ne_nil hclean)
          · simp only [List.map_cons, readParams, PatternSegment.text,
              percentDecode_percentEncode hpercent, hread, tokens,
              Option.bind_eq_bind, Option.bind_some, Option.pure_def,
              String.ofList_toList]

theorem Survives.roundTrips (h : Survives route params) :
    RoundTrips route params := by
  have hliteral : ∀ text, .literal text ∈ route.segments → PlainText text :=
    fun _ => Route.plainText
  have htoken : ∀ key, .token key ∈ route.segments →
      CleanText (params key).toList :=
    fun key hkey => h.clean key (mem_tokens.2 hkey)
  have hclean : ∀ s ∈ route.texts params, CleanText s := by
    intro s hs
    obtain ⟨p, hp, rfl⟩ := List.mem_map.1 hs
    cases p with
    | literal text => exact (hliteral text hp).clean
    | token key => exact htoken key hp
  obtain ⟨before, p, hsegments⟩ : ∃ before p, route.segments = before ++ [p] := by
    refine ⟨_, _, (List.dropLast_append_getLast (l := route.segments) ?_).symm⟩
    rw [route.segments_eq]
    exact List.cons_ne_nil _ _
  have hlast : (route.texts params).getLast? = some (p.text params) := by
    simp [Route.texts, hsegments]
  have hlastClean := hclean _ (List.mem_of_getLast? hlast)
  have hordinary : OrdinaryPath (toPath (route.texts params)) := by
    refine .of_clean hclean fun c hc => ?_
    rw [getLast?_toPath hlast hlastClean.ne_nil] at hc
    cases p with
    | literal text =>
        have hmem : .literal text ∈ route.segments := by simp [hsegments]
        exact (hliteral text hmem).last c (List.mem_of_getLast? hc)
    | token key =>
        have hkey : route.lastToken = some key :=
          lastToken_eq_some.2 (by simp [hsegments])
        exact h.last key hkey c hc
  have hpath : requestPath (buildMediaRoomPath route.pattern params) =
      (route.texts params).map percentEncode := by
    rw [requestPath, toList_path, hordinary.urlPath, CleanText.splitOnP hclean,
      List.tail_cons]
  have htrailing : dropTrailing ((route.texts params).map percentEncode) =
      (route.texts params).map percentEncode := by
    rw [dropTrailing, List.getLast?_map, hlast, Option.map_some, if_neg]
    simpa using percentEncode_ne_nil hlastClean
  rw [RoundTrips, hpath, dispatch_eq_some, htrailing]
  exact ⟨rfl, read_texts hliteral htoken⟩

/-- A request reaches its handler with its values exactly when they survive. -/
theorem roundTrips_iff (route : Route) (params : Params) :
    RoundTrips route params ↔ Survives route params :=
  ⟨RoundTrips.survives, Survives.roundTrips⟩

/-! A room id with a slash in it. -/

theorem tokens_closeRoom : Route.closeRoom.tokens = ["roomId"] := by
  decide +kernel

/-- The request to close this room does not reach `closeRoom` with its id. -/
theorem not_roundTrips_slash :
    ¬ RoundTrips .closeRoom fun _ => "a/peers/b" := by
  intro h
  have hclean := h.survives.clean "roomId" (by simp [tokens_closeRoom])
  exact absurd (hclean.chars '/' (by simp)) (by decide)

/-- It removes a peer from another room. -/
theorem dispatch_slash :
    dispatch .delete (requestPath (buildMediaRoomPath Route.closeRoom.pattern
      fun _ => "a/peers/b")) =
        some (.removePeer, [("roomId", "a"), ("peerId", "b")]) := by
  let params : Params := fun key => if key = "roomId" then "a" else "b"
  have hpath : buildMediaRoomPath Route.closeRoom.pattern (fun _ => "a/peers/b") =
      buildMediaRoomPath Route.removePeer.pattern params := by decide +kernel
  have htokens : Route.removePeer.tokens = ["roomId", "peerId"] := by
    decide +kernel
  have hsurvives : Survives .removePeer params := by decide +kernel
  have hroundTrips := hsurvives.roundTrips
  rw [RoundTrips, htokens] at hroundTrips
  rw [hpath]
  exact hroundTrips

end MeetServer.Rest
