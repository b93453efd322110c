import RdltConnectors.Library.Fallible
import RdltConnectors.Postgres.Uri

/-!
# The pairs of a URL

Where the pairs of the query are read as the grammar reads them, what is taken out of a URL is
what the grammar assigns, and what is kept is read again behind the same base.
-/
namespace PgConn

open Separator (splitOnce)

/-! ## One pair -/

/-- A key that is written without percent signs is itself. -/
theorem uriDecode_plain {text : List Char} (h : '%' ∉ text) : uriDecode text = some (utf8 text) := by
  induction text with
  | nil => rfl
  | cons c rest ih =>
    rw [List.mem_cons, not_or] at h
    rw [uriDecode, ih h.2]
    · rfl
    · exact fun _ _ _ heq => absurd heq.symm h.1
    · exact fun heq => absurd heq.symm h.1

theorem bytes_of_decoded {decoded : List UInt8} {value : String}
    (h : String.fromUTF8? ⟨decoded.toArray⟩ = some value) : bytes value = decoded := by
  rw [String.fromUTF8?] at h
  split at h
  · have hbytes := congrArg String.toByteArray (Option.some.inj h)
    have hvalue : value.toByteArray = (bytes value).toByteArray := by
      rw [bytes, utf8, ← String.utf8Encode_toList]
      rfl
    rw [hvalue] at hbytes
    have hdata := congrArg ByteArray.data hbytes
    rw [List.data_toByteArray] at hdata
    exact (congrArg Array.toList hdata).symm
  · cases h

/-- The key and the value as they are written. -/
def written (pair : List Char) : List Char × List Char := (splitOnce '=' pair).getD (pair, [])

/-- A TLS parameter has its keyword written as it is, and the value of a TLS keyword is text. -/
structure PlainPair (pair : List Char) : Prop where
  keyword : ∀ param, uriPair pair = some param → isTls param = true → '%' ∉ (written pair).1
  value : String.ofList (written pair).1 ∈ "sslmode" :: pemKeys →
    ∀ decoded, uriDecode (written pair).2 = some decoded →
      (String.fromUTF8? ⟨decoded.toArray⟩).isSome = true

instance decidablePlainPair (pair : List Char) : Decidable (PlainPair pair) :=
  decidable_of_iff
    ((∀ param ∈ uriPair pair, isTls param = true → '%' ∉ (written pair).1) ∧
      (String.ofList (written pair).1 ∈ "sslmode" :: pemKeys →
        ∀ decoded ∈ uriDecode (written pair).2, (String.fromUTF8? ⟨decoded.toArray⟩).isSome = true))
    ⟨fun h => ⟨h.1, h.2⟩, fun h => ⟨h.1, h.2⟩⟩

/-- What a pair is read as. -/
structure Paired (pair : List Char) (key value : List UInt8) (param : Param) : Prop where
  keyDecodes : uriDecode (written pair).1 = some key
  valueDecodes : uriDecode (written pair).2 = some value
  assigned : param = if key = bytes "ssl" ∧ value = bytes "true" then
    (bytes "sslmode", bytes "require") else (key, value)

theorem paired_of_uriPair {pair : List Char} {param : Param} (h : uriPair pair = some param) :
    ∃ key value, Paired pair key value param := by
  unfold uriPair at h
  split at h
  · next key value hsplit =>
    obtain ⟨rfl, hkey, -⟩ := Separator.splitOn_eq_two.1 hsplit
    have hwritten : written (key ++ '=' :: value) = (key, value) := by
      rw [written, Separator.splitOnce_append hkey]
      rfl
    obtain ⟨k, hk, h⟩ := Option.bind_eq_some_iff.1 h
    obtain ⟨v, hv, h⟩ := Option.bind_eq_some_iff.1 h
    exact ⟨k, v, by rw [hwritten]; exact hk, by rw [hwritten]; exact hv, (Option.some.inj h).symm⟩
  · cases h

section Lossy

variable (lossy : List UInt8 → String)

/-- The pair that the code reads. -/
def urlPair (pair : List Char) : String × String :=
  (String.ofList (written pair).1,
    match percentDecode (written pair).2 with
    | some decoded => fromUtf8Lossy lossy decoded
    | none => String.ofList (written pair).2)

theorem urlPair_value {pair : List Char} {key value : List UInt8} {param : Param}
    (h : Paired pair key value param) : (urlPair lossy pair).2 = fromUtf8Lossy lossy value := by
  rw [urlPair, percentDecode_of_uriDecode h.valueDecodes]

theorem isTls_require : isTls (bytes "sslmode", bytes "require") = false := by
  decide +kernel

theorem mem_of_isTls {key value : List UInt8} (h : isTls (key, value) = true) :
    key ∈ ("sslmode" :: pemKeys).map bytes := by
  rw [isTls, Bool.or_eq_true, Bool.and_eq_true] at h
  obtain h | ⟨h, -⟩ := h
  · exact List.mem_cons_of_mem _ (of_decide_eq_true h)
  · have hkey : key = bytes "sslmode" := of_decide_eq_true h
    rw [hkey]
    exact List.mem_cons_self

/-- A pair that is plain is read as the grammar reads it. -/
theorem reads_of_plain {pair : List Char} {param : Param} (h : uriPair pair = some param)
    (hplain : PlainPair pair) : Reads (urlPair lossy pair) param := by
  obtain ⟨key, value, hpaired⟩ := paired_of_uriPair h
  have hread (hkey : '%' ∉ (written pair).1)
      (hours : String.ofList (written pair).1 ∈ "sslmode" :: pemKeys) :
      (bytes (urlPair lossy pair).1, bytes (urlPair lossy pair).2) = param := by
    have hdecoded := hplain.value hours _ hpaired.valueDecodes
    obtain ⟨text, htext⟩ := Option.isSome_iff_exists.1 hdecoded
    have hutf8 : key = bytes (String.ofList (written pair).1) := by
      rw [bytes_ofList]
      exact Option.some.inj (hpaired.keyDecodes.symm.trans (uriDecode_plain hkey))
    have hssl : ¬(key = bytes "ssl" ∧ value = bytes "true") := by
      rintro ⟨hkey, -⟩
      rw [hutf8] at hkey
      rw [bytes_inj hkey] at hours
      exact absurd hours (by decide)
    rw [urlPair_value lossy hpaired, fromUtf8Lossy, htext, Option.getD_some, bytes_of_decoded htext,
      hpaired.assigned, if_neg hssl, hutf8]
    rfl
  constructor
  · intro htls
    have hkey := hplain.keyword param h htls
    apply hread hkey
    have hutf8 : key = bytes (String.ofList (written pair).1) := by
      rw [bytes_ofList]
      exact Option.some.inj (hpaired.keyDecodes.symm.trans (uriDecode_plain hkey))
    rw [hpaired.assigned] at htls
    split at htls
    · rw [isTls_require] at htls
      cases htls
    · have hmem := mem_of_isTls htls
      rw [hutf8] at hmem
      obtain ⟨name, hname, heq⟩ := List.mem_map.1 hmem
      rw [← bytes_inj heq]
      exact hname
  · intro hcaptured
    have hours : String.ofList (written pair).1 ∈ "sslmode" :: pemKeys := by
      rw [isCaptured, Bool.or_eq_true, Bool.and_eq_true] at hcaptured
      obtain hpem | ⟨hmode, -⟩ := hcaptured
      · exact List.mem_cons_of_mem _ (of_decide_eq_true hpem)
      · have heq : String.ofList (written pair).1 = "sslmode" := of_decide_eq_true hmode
        rw [heq]
        exact List.mem_cons_self
    apply hread _ hours
    have hnames : ∀ name ∈ "sslmode" :: pemKeys, '%' ∉ name.toList := by decide
    have hname := hnames _ hours
    rwa [String.toList_ofList] at hname

/-! ## The pairs one after another -/

theorem takePair_captured {e e' : Extracted} {kept : List (List Char)} {pair : List Char}
    {key value : List UInt8} {param : Param} (h : Paired pair key value param)
    (hcapture : e.capture (urlPair lossy pair).1 (urlPair lossy pair).2 = some e') :
    takePair lossy (e, kept) pair = (e', kept) := by
  rw [urlPair_value lossy h] at hcapture
  unfold takePair
  have hdecode := percentDecode_of_uriDecode h.valueDecodes
  unfold written at hdecode
  dsimp only
  rw [hdecode]
  dsimp only
  unfold urlPair written at hcapture
  rw [hcapture]

theorem takePair_kept {e : Extracted} {kept : List (List Char)} {pair : List Char}
    {key value : List UInt8} {param : Param} (h : Paired pair key value param)
    (hcapture : e.capture (urlPair lossy pair).1 (urlPair lossy pair).2 = none) :
    takePair lossy (e, kept) pair =
      ({ e with driverKeys := e.driverKeys ++ [(urlPair lossy pair).1] }, kept ++ [pair]) := by
  rw [urlPair_value lossy h] at hcapture
  unfold takePair
  have hdecode := percentDecode_of_uriDecode h.valueDecodes
  unfold written at hdecode
  dsimp only
  rw [hdecode]
  dsimp only
  unfold urlPair written at hcapture
  rw [hcapture]
  rfl

/-- The pairs that are ours are captured, the others are kept. -/
theorem foldl_takePair {found : List (List Char)} {params : List Param}
    (hfound : found.mapM uriPair = some params) {e : Extracted} {done : List (String × String)}
    (kept : List (List Char)) (h : Caught e done) (hescape : e.malformedEscape = none) :
    ∃ e', found.foldl (takePair lossy) (e, kept) =
        (e', kept ++ found.filter fun pair => !isCaptured (urlPair lossy pair)) ∧
      Caught e' (done ++ found.map (urlPair lossy)) ∧ e'.malformedEscape = none := by
  induction found generalizing e done kept params with
  | nil => exact ⟨e, by simp, by simpa using h, hescape⟩
  | cons pair found ih =>
    obtain ⟨param, params', hpair, hparams, rfl⟩ := Fallible.option_mapM_cons.1 hfound
    obtain ⟨key, value, hpaired⟩ := paired_of_uriPair hpair
    rw [List.foldl_cons]
    obtain ⟨hcaptured, e', hcapture, -, -, -, -, hsame⟩ | ⟨hcaptured, hcapture, -⟩ :=
      capture_cases e (urlPair lossy pair).1 (urlPair lossy pair).2
    · obtain ⟨e'', hfold, hcaught, hnone⟩ :=
        ih hparams kept (h.capture hcapture) (hsame.trans hescape)
      have hdrop : (!isCaptured (urlPair lossy pair)) = false := by rw [hcaptured]; rfl
      refine ⟨e'', ?_, ?_, hnone⟩
      · rw [takePair_captured lossy hpaired hcapture, hfold, List.filter_cons,
          if_neg (by rw [hdrop]; exact Bool.false_ne_true)]
      · rw [List.map_cons, List.append_cons]
        exact hcaught
    · obtain ⟨e'', hfold, hcaught, hnone⟩ := @ih _ hparams
        { e with driverKeys := e.driverKeys ++ [(urlPair lossy pair).1] } _ (kept ++ [pair])
        (h.keep hcapture ⟨rfl, rfl, rfl, rfl⟩) hescape
      have hkeep : (!isCaptured (urlPair lossy pair)) = true := by rw [hcaptured]; rfl
      refine ⟨e'', ?_, ?_, hnone⟩
      · rw [takePair_kept lossy hpaired hcapture, hfold, List.filter_cons, if_pos hkeep,
          List.append_assoc]
        rfl
      · rw [List.map_cons, List.append_cons]
        exact hcaught

/-! ## The query -/

theorem not_mem_piece {sep : Char} {text piece : List Char} (h : piece ∈ text.splitOn sep) :
    sep ∉ piece := by
  induction text generalizing piece with
  | nil =>
    rw [List.splitOn_nil] at h
    rw [List.mem_singleton.1 h]
    exact List.not_mem_nil
  | cons c rest ih =>
    rw [List.splitOn_cons_eq_if_modifyHead] at h
    split at h
    · obtain rfl | h := List.mem_cons.1 h
      · exact List.not_mem_nil
      · exact ih h
    · next hne =>
      cases hsplit : rest.splitOn sep with
      | nil => exact absurd hsplit (List.splitOn_ne_nil sep rest)
      | cons first others =>
        rw [hsplit] at h ih
        obtain rfl | h := List.mem_cons.1 h
        · rw [List.mem_cons, not_or]
          exact ⟨fun heq => hne (beq_iff_eq.2 heq.symm), ih List.mem_cons_self⟩
        · exact ih (List.mem_cons_of_mem _ h)

theorem uriPair_nil : uriPair [] = none := by
  rw [uriPair, List.splitOn_nil]

theorem ne_nil_of_mapM {pairs : List (List Char)} {params : List Param}
    (h : pairs.mapM uriPair = some params) : ∀ pair ∈ pairs, pair ≠ [] := by
  induction pairs generalizing params with
  | nil => exact fun _ hmem => absurd hmem List.not_mem_nil
  | cons pair pairs ih =>
    obtain ⟨param, params', hpair, hparams, -⟩ := Fallible.option_mapM_cons.1 h
    refine List.forall_mem_cons.2 ⟨?_, ih hparams⟩
    rintro rfl
    rw [uriPair_nil] at hpair
    cases hpair

/-- The pairs of a query that is read are those that the code looks at. -/
theorem uriPairs_eq {query : List Char} {params : List Param}
    (h : (uriPairs query).mapM uriPair = some params) :
    (query.splitOn '&').filter (· ≠ []) = uriPairs query := by
  have hne := ne_nil_of_mapM h
  have hall : (uriPairs query).filter (· ≠ []) = uriPairs query :=
    List.filter_eq_self.2 fun pair hpair => decide_eq_true (hne pair hpair)
  unfold uriPairs at hall ⊢
  split at hall
  · next hlast =>
    rw [if_pos hlast]
    have hsplit := List.dropLast_append_getLast? [] hlast
    rw [← hsplit, List.filter_append, List.dropLast_concat, hall]
    simp
  · next hlast =>
    rw [if_neg hlast]
    exact hall

theorem mem_uriPairs {query pair : List Char} (h : pair ∈ uriPairs query) : '&' ∉ pair := by
  unfold uriPairs at h
  split at h
  · exact not_mem_piece (List.mem_of_mem_dropLast h)
  · exact not_mem_piece h

/-- Pairs that are joined are the pairs of what they are joined to. -/
theorem uriPairs_joined {kept : List (List Char)} (hnot : ∀ pair ∈ kept, '&' ∉ pair)
    (hne : ∀ pair ∈ kept, pair ≠ []) : uriPairs (['&'].intercalate kept) = kept := by
  cases kept with
  | nil => rfl
  | cons pair kept =>
    unfold uriPairs
    rw [List.splitOn_intercalate '&' hnot (List.cons_ne_nil _ _), if_neg]
    intro hlast
    exact hne [] (List.mem_of_getLast? hlast) rfl

/-- The pairs that are kept are read as they were. -/
theorem mapM_kept {pairs : List (List Char)} {params : List Param}
    (h : pairs.mapM uriPair = some params) (hplain : ∀ pair ∈ pairs, PlainPair pair) :
    List.Forall₂ Reads (pairs.map (urlPair lossy)) params ∧
      (pairs.filter fun pair => !isCaptured (urlPair lossy pair)).mapM uriPair =
        some (params.filter fun param => !isTls param) := by
  induction pairs generalizing params with
  | nil =>
    obtain rfl := Option.some.inj h
    exact ⟨.nil, rfl⟩
  | cons pair pairs ih =>
    obtain ⟨param, params', hpair, hparams, rfl⟩ := Fallible.option_mapM_cons.1 h
    rw [List.forall_mem_cons] at hplain
    have hread := reads_of_plain lossy hpair hplain.1
    obtain ⟨hreads, hmapM⟩ := ih hparams hplain.2
    refine ⟨.cons hread hreads, ?_⟩
    rw [List.filter_cons, List.filter_cons, hread.isTls_eq]
    cases isCaptured (urlPair lossy pair) with
    | true => exact hmapM
    | false => exact Fallible.option_mapM_cons.2 ⟨param, _, hpair, hmapM, rfl⟩

/-- What is taken out of a text whose query is read as the grammar reads it. -/
theorem extractFromUrl_read {text query : List Char} {params : List Param}
    (htext : (text.dropWhile (· ≠ '?')).drop 1 = query)
    (hparams : (uriPairs query).mapM uriPair = some params)
    (hplain : ∀ pair ∈ uriPairs query, PlainPair pair) :
    ∃ kept, Caught (extractFromUrl lossy text) ((uriPairs query).map (urlPair lossy)) ∧
      List.Forall₂ Reads ((uriPairs query).map (urlPair lossy)) params ∧
      (extractFromUrl lossy text).malformedEscape = none ∧
      kept = ((uriPairs query).filter fun pair => !isCaptured (urlPair lossy pair)) ∧
      (extractFromUrl lossy text).remainder =
        beforeQuery text ++ (if kept = [] then [] else '?' :: ['&'].intercalate kept) ∧
      (uriPairs (['&'].intercalate kept)).mapM uriPair =
        some (params.filter fun param => !isTls param) := by
  obtain ⟨hreads, hmapM⟩ := mapM_kept lossy hparams hplain
  obtain ⟨e, hfold, hcaught, hnone⟩ := foldl_takePair lossy hparams [] caught_nil rfl
  have hsplit : (splitOnce '?' text).getD (text, []) = (beforeQuery text, query) := by
    have hparts := @List.takeWhile_append_dropWhile _ (· ≠ '?') text
    cases hdrop : text.dropWhile (· ≠ '?') with
    | nil =>
      rw [hdrop] at htext hparts
      rw [List.append_nil] at hparts
      have hnot : '?' ∉ text := by
        rw [← hparts]
        exact not_mem_beforeQuery text
      rw [Separator.splitOnce_none hnot, beforeQuery, hparts, ← htext]
      rfl
    | cons c behind =>
      obtain rfl : c = '?' := queried_dropWhile text c (by rw [hdrop]; rfl)
      rw [hdrop] at htext hparts
      obtain rfl : behind = query := htext
      have honce := Separator.splitOnce_append (not_mem_beforeQuery text) behind
      rw [beforeQuery, hparts] at honce
      rw [honce]
      rfl
  have hextract : extractFromUrl lossy text = { e with
      remainder := (fun kept : List (List Char) =>
        if kept = [] then beforeQuery text else beforeQuery text ++ '?' :: List.intercalate ['&'] kept)
        ((uriPairs query).filter fun pair => !isCaptured (urlPair lossy pair)) } := by
    rw [extractFromUrl, hsplit]
    dsimp only
    rw [uriPairs_eq hparams, hfold]
    rfl
  have hjoined := @uriPairs_joined ((uriPairs query).filter fun pair => !isCaptured (urlPair lossy pair))
    (fun pair hpair => mem_uriPairs (List.mem_filter.1 hpair).1)
    (fun pair hpair => ne_nil_of_mapM hparams pair (List.mem_filter.1 hpair).1)
  rw [hextract]
  refine ⟨_, ⟨hcaught.rootCert, hcaught.clientCert, hcaught.clientKey, hcaught.verifyMode⟩, hreads,
    hnone, rfl, ?_, ?_⟩
  · dsimp only
    split
    · rw [List.append_nil]
    · rfl
  · rw [hjoined]
    exact hmapM

end Lossy

end PgConn
