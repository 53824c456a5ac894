import Mathlib.Data.List.Dedup
import Mathlib.Data.String.Basic
import LiberNovus.Foundation.Ordering
import LiberNovus.Session.Summary

/-! The words of a summary: two counters over the tokens of the dreams, one of all
occurrences and one of the dreams a word occurs in, and a ranking by the first.

Proved: the recurring words are those of at least two dreams and the key symbols the first
ten of all, both ranked by all occurrences, and the order of the dreams does not matter. -/

namespace LiberNovus.Session

variable {α : Type*}

/-! ### What the summary says -/

section Meaning

variable [CharTable] (dreams : List Dream)

/-- The words of all dreams: lower-cased letter tokens that are no stopwords. -/
def allTokens : List String := dreams.flatMap fun dream => tokenize dream.text

/-- The larger count over all dreams comes first, then the smaller word. -/
def Outranks (a b : String) : Prop :=
  (allTokens dreams).count b < (allTokens dreams).count a ∨
    (allTokens dreams).count b = (allTokens dreams).count a ∧ a < b

/-- The word occurs in at least two dreams. -/
def Recurs (word : String) : Prop := 2 ≤ dreams.countP fun dream => word ∈ tokenize dream.text

instance (word : String) : Decidable (Recurs dreams word) := inferInstanceAs (Decidable (_ ≤ _))

/-- The content of a summary, from its dreams. -/
structure Characterised (content : SummaryContent) : Prop where
  dreamCount : content.dreamCount = dreams.length
  recurring : ∀ word, word ∈ content.recurringWords ↔ Recurs dreams word
  recurring_nodup : content.recurringWords.Nodup
  recurring_ordered : content.recurringWords.Pairwise (Outranks dreams)
  symbols_length : content.keySymbols.length = min 10 (allTokens dreams).dedup.length
  symbols_mem : ∀ symbol ∈ content.keySymbols, symbol ∈ allTokens dreams
  symbols_nodup : content.keySymbols.Nodup
  symbols_ordered : content.keySymbols.Pairwise (Outranks dreams)
  symbols_first : ∀ word ∈ allTokens dreams, word ∉ content.keySymbols →
    ∀ symbol ∈ content.keySymbols, ¬ Outranks dreams word symbol

end Meaning

/-! ### Ranking -/

instance : Std.Total Ranks := ⟨fun a b => by
  unfold Ranks
  rcases lt_trichotomy a.2 b.2 with h | h | h
  · exact .inr (.inl h)
  · rcases le_total a.1 b.1 with hw | hw
    · exact .inl (.inr ⟨h.symm, hw⟩)
    · exact .inr (.inr ⟨h, hw⟩)
  · exact .inl (.inl h)⟩

instance : IsTrans (String × ℕ) Ranks := ⟨fun a b c => by
  unfold Ranks
  rintro (hab | ⟨hab, hw⟩) (hbc | ⟨hbc, hw'⟩)
  · exact .inl (hbc.trans hab)
  · exact .inl (hbc ▸ hab)
  · exact .inl (hab ▸ hbc)
  · exact .inr ⟨hbc.trans hab, hw.trans hw'⟩⟩

theorem eq_of_ranks {a b : String × ℕ} (h : Ranks a b) (h' : Ranks b a) : a = b := by
  rcases h with h | ⟨hn, hw⟩
  · rcases h' with h' | ⟨hn', -⟩ <;> omega
  · rcases h' with h' | ⟨-, hw'⟩
    · omega
    · exact Prod.ext (le_antisymm hw hw') hn.symm

theorem rankWords_perm {words words' : Counter} (h : words.Perm words') :
    rankWords words = rankWords words' := by
  rw [rankWords, rankWords, Ordering.insertionSort_of_perm h fun _ _ _ _ => eq_of_ranks]

section Rank

variable {words : List String} (count : String → ℕ)

theorem rankWords_map_perm : (rankWords (words.map fun word => (word, count word))).Perm words := by
  have h := (List.perm_insertionSort Ranks (words.map fun word => (word, count word))).map Prod.fst
  rwa [List.map_map, show (Prod.fst ∘ fun word => (word, count word)) = id from rfl, List.map_id] at h

/-- Distinct words are strictly ranked. -/
theorem pairwise_rankWords (h : words.Nodup) :
    (rankWords (words.map fun word => (word, count word))).Pairwise fun a b =>
      count b < count a ∨ count b = count a ∧ a < b := by
  have hnodup : (rankWords (words.map fun word => (word, count word))).Nodup :=
    (rankWords_map_perm count).nodup_iff.mpr h
  have hcount : ∀ item ∈ (words.map fun word => (word, count word)).insertionSort Ranks,
      item.2 = count item.1 := by
    intro item hitem
    obtain ⟨word, -, rfl⟩ := List.mem_map.mp ((List.mem_insertionSort Ranks).mp hitem)
    rfl
  rw [rankWords] at hnodup ⊢
  rw [List.Nodup, List.pairwise_map] at hnodup
  rw [List.pairwise_map]
  have hsorted := List.pairwise_insertionSort Ranks (words.map fun word => (word, count word))
  refine (hsorted.and hnodup).imp_of_mem fun {a b} ha hb hab => ?_
  rw [← hcount a ha, ← hcount b hb]
  rcases hab.1 with h | ⟨h, hw⟩
  · exact .inl h
  · exact .inr ⟨h, lt_of_le_of_ne hw hab.2⟩

end Rank

/-! ### Counting -/

section Counting

variable [CharTable] {dreams dreams' : List Dream}

omit [CharTable] in
theorem lookup_map {words : List String} {count : String → ℕ} {word : String} (h : word ∈ words) :
    (words.map fun word => (word, count word)).lookup word = some (count word) := by
  induction words with
  | nil => cases h
  | cons first rest ih =>
    by_cases he : word = first
    · simp [he]
    · have hne : (word == first) = false := by simpa using he
      rw [List.map_cons, List.lookup_cons, hne]
      exact ih ((List.mem_cons.mp h).resolve_left he)

omit [CharTable] in
/-- The second counter counts the lists in which a word occurs. -/
theorem count_flatMap_dedup {tokens : α → List String} (items : List α) (word : String) :
    (items.flatMap fun item => (tokens item).dedup).count word =
      items.countP fun item => word ∈ tokens item := by
  induction items with
  | nil => rfl
  | cons item items ih =>
    rw [List.flatMap_cons, List.count_append, ih, List.countP_cons, List.count_dedup]
    by_cases h : word ∈ tokens item <;> simp [h, Nat.add_comm]

/-- The distinct words that occur in more than one dream. -/
def recurringSet (dreams : List Dream) : List String :=
  ((dreams.flatMap fun dream => (tokenize dream.text).dedup).dedup).filter fun word =>
    1 < (dreams.flatMap fun dream => (tokenize dream.text).dedup).count word

theorem recurringSet_nodup (dreams : List Dream) : (recurringSet dreams).Nodup :=
  (List.nodup_dedup _).filter _

theorem mem_recurringSet {word : String} : word ∈ recurringSet dreams ↔ Recurs dreams word := by
  rw [recurringSet, List.mem_filter, decide_eq_true_eq, count_flatMap_dedup, Recurs, List.mem_dedup]
  refine and_iff_right_of_imp fun h => ?_
  rw [← List.count_pos_iff, count_flatMap_dedup]
  omega

theorem mem_allTokens_of_recurs {word : String} (h : Recurs dreams word) :
    word ∈ allTokens dreams := by
  obtain ⟨dream, hd, hw⟩ := List.countP_pos_iff.mp (Nat.zero_lt_of_lt h)
  exact List.mem_flatMap.mpr ⟨dream, hd, by simpa using hw⟩

theorem keySymbols_summarize (dreams : List Dream) : (summarize dreams).keySymbols =
    (rankWords (counter (allTokens dreams))).take maxKeySymbols := by
  rw [allTokens, List.flatMap_def]
  rfl

/-- The recurring words are ranked by their occurrences in all dreams. -/
theorem recurringWords_summarize (dreams : List Dream) : (summarize dreams).recurringWords =
    rankWords ((recurringSet dreams).map fun word => (word, (allTokens dreams).count word)) := by
  have hitems : (counter ((dreams.map fun dream => tokenize dream.text).flatMap List.dedup)).filter
      (fun item => 1 < item.2) = (recurringSet dreams).map fun word =>
        (word, (dreams.flatMap fun dream => (tokenize dream.text).dedup).count word) := by
    rw [counter, List.flatMap_map, List.filter_map]
    rfl
  show rankWords ((List.filter _ (counter _)).map _) = _
  rw [hitems, List.map_map]
  congr 1
  refine List.map_congr_left fun word hword => ?_
  have hmem := mem_allTokens_of_recurs (mem_recurringSet.mp hword)
  show (word, ((counter _).lookup word).getD 0) = _
  rw [← List.flatMap_def, ← allTokens, counter, lookup_map (List.mem_dedup.mpr hmem), Option.getD_some]

theorem allTokens_perm (h : dreams.Perm dreams') : (allTokens dreams).Perm (allTokens dreams') :=
  h.flatMap_right _

theorem recurringSet_perm (h : dreams.Perm dreams') :
    (recurringSet dreams).Perm (recurringSet dreams') := by
  refine (List.perm_ext_iff_of_nodup (recurringSet_nodup _) (recurringSet_nodup _)).mpr fun word => ?_
  rw [mem_recurringSet, mem_recurringSet, Recurs, Recurs, h.countP_eq]

end Counting

/-! ### The summary -/

section Summary

variable [CharTable]

theorem not_outranks (dreams : List Dream) {a b : String} (h : Outranks dreams a b) :
    ¬ Outranks dreams b a := by
  rintro (h' | ⟨h', hw'⟩) <;> rcases h with h | ⟨h, hw⟩
  · omega
  · omega
  · omega
  · exact lt_asymm hw hw'

/-- The summary is the one its dreams determine, in whatever order they come. -/
theorem summarize_characterised (dreams : List Dream) :
    Characterised dreams (summarize dreams) ∧ ∀ dreams', dreams'.Perm dreams →
      (summarize dreams').dreamCount = (summarize dreams).dreamCount ∧
      (summarize dreams').keySymbols = (summarize dreams).keySymbols ∧
      (summarize dreams').recurringWords = (summarize dreams).recurringWords := by
  have hranked := pairwise_rankWords (fun word => (allTokens dreams).count word)
    (List.nodup_dedup (allTokens dreams))
  have hperm : (rankWords ((allTokens dreams).dedup.map fun word =>
      (word, (allTokens dreams).count word))).Perm (allTokens dreams).dedup := rankWords_map_perm _
  have hsymbols := keySymbols_summarize dreams
  have hrecurring := recurringWords_summarize dreams
  refine ⟨?_, fun dreams' h => ⟨h.length_eq, ?_, ?_⟩⟩
  · refine ⟨rfl, fun word => ?_, ?_, ?_, ?_, fun symbol hs => ?_, ?_, ?_, fun word hw hn symbol hs => ?_⟩
    · rw [hrecurring, (rankWords_map_perm _).mem_iff, mem_recurringSet]
    · rw [hrecurring, (rankWords_map_perm _).nodup_iff]
      exact recurringSet_nodup dreams
    · rw [hrecurring]
      exact pairwise_rankWords _ (recurringSet_nodup dreams)
    · rw [hsymbols, List.length_take, counter, hperm.length_eq, maxKeySymbols]
    · rw [hsymbols] at hs
      exact List.mem_dedup.mp (hperm.mem_iff.mp (List.mem_of_mem_take hs))
    · rw [hsymbols]
      exact (hperm.nodup_iff.mpr (List.nodup_dedup _)).sublist (List.take_sublist _ _)
    · rw [hsymbols]
      exact hranked.sublist (List.take_sublist _ _)
    · rw [hsymbols] at hn hs
      exact Ordering.not_rel_take (fun _ _ => not_outranks dreams) hranked hs
        (hperm.mem_iff.mpr (List.mem_dedup.mpr hw)) hn
  · rw [keySymbols_summarize, hsymbols, counter, counter]
    have hcount : (fun word => (word, (allTokens dreams').count word)) =
        fun word => (word, (allTokens dreams).count word) := by
      funext word
      rw [(allTokens_perm h).count_eq]
    rw [hcount, rankWords_perm ((allTokens_perm h).dedup.map _)]
  · rw [recurringWords_summarize, hrecurring]
    have hcount : (fun word => (word, (allTokens dreams').count word)) =
        fun word => (word, (allTokens dreams).count word) := by
      funext word
      rw [(allTokens_perm h).count_eq]
    rw [hcount, rankWords_perm ((recurringSet_perm h).map _)]

end Summary

section Example

local instance : CharTable := ⟨Char.isAlphanum⟩

def river : Dream := ⟨1, 3, "The river, the river", 0, 7⟩

def bridge : Dream := ⟨2, 3, "A bridge. A river!", 1, 7⟩

/-- A word of both dreams recurs, whichever comes first. -/
theorem summarize_swapped : "river" ∈ (summarize [river, bridge]).recurringWords ∧
    "bridge" ∉ (summarize [river, bridge]).recurringWords ∧
    (summarize [bridge, river]).recurringWords = (summarize [river, bridge]).recurringWords := by
  obtain ⟨hc, hp⟩ := summarize_characterised [river, bridge]
  refine ⟨(hc.recurring "river").mpr (by decide), fun h => ?_,
    (hp [bridge, river] (List.Perm.swap _ _ _)).2.2⟩
  exact absurd ((hc.recurring "bridge").mp h) (by decide)

end Example

end LiberNovus.Session
