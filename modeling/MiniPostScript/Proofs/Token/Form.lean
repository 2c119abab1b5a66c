import MiniPostScript.Proofs.Text.Tidy
import MiniPostScript.Proofs.Token.Groups
import MiniPostScript.Proofs.Token.Literal

set_option autoImplicit false

namespace MiniPostScript.Token

open Text

-- What a token is cut from: whole fragments, or those left open at the end with what closes them.
inductive Made (words : List (List Char)) : List Char → Prop where
  | whole (held : List (List Char)) (whole : Whole held) (within : held ⊆ words) : Made words (spaced held.reverse)
  | rest (scan : Scan) (inside : scan ≠ .outside) (sound : scan.Sound) (within : scan.words ⊆ words) :
      Made words (spaced scan.words.reverse ++ scan.closing)

theorem tokens_made (words rest : List (List Char)) (scan : Scan) (sound : scan.Sound) (held : scan.words ⊆ words)
    (ahead : rest ⊆ words) : ∀ token ∈ scan.tokens rest, Made words token := by
  induction rest generalizing scan with
  | nil =>
      intro token member
      by_cases ended : scan = .outside
      · subst ended
        cases member
      · rw [Scan.tokens, Scan.rest_closed scan ended] at member
        obtain rfl := List.mem_singleton.mp member
        exact .rest scan ended sound held
  | cons word rest ih =>
      obtain ⟨here, later⟩ := List.cons_subset.mp ahead
      have longer : word :: scan.words ⊆ words := List.cons_subset.mpr ⟨here, held⟩
      have reads := Scan.reads word scan sound
      intro token member
      rw [Scan.tokens] at member
      generalize scan.read word = outcome at reads member
      cases reads with
      | holds next inside sound same => exact ih next sound (same ▸ longer) later token member
      | completes whole =>
          rcases List.mem_cons.mp member with rfl | further
          · exact .whole _ whole longer
          · exact ih .outside trivial (List.nil_subset words) later token further

inductive Form : List Char → Prop where
  | word (token : List Char) (solid : ∀ c ∈ token, isBlank c = false) (block : opensBlock token = false)
      (string : opensString token = false) : Form token
  | block (source : List Char) : Form ('{' :: (source ++ ['}']))
  | string (text : List Char) : Form ('(' :: (text ++ [')']))

theorem enclosed (token : List Char) (opening closing : Char) (first : token.head? = some opening)
    (last : token.getLast? = some closing) (apart : opening ≠ closing) :
    ∃ inner, token = opening :: (inner ++ [closing]) := by
  obtain ⟨rest, rfl⟩ := List.head?_eq_some_iff.mp first
  obtain ⟨front, same⟩ := List.getLast?_eq_some_iff.mp last
  cases front with
  | nil =>
      obtain ⟨same, _⟩ := List.cons.inj same
      exact absurd same apart
  | cons c inner => exact ⟨inner, congrArg (List.cons opening) (List.cons.inj same).2⟩

theorem spaced_opens (held : List (List Char)) (opening : Char)
    (opens : held.getLast?.any (fun word => word.head? == some opening) = true) :
    (spaced held.reverse).head? = some opening := by
  obtain ⟨first, last, begins⟩ := (Option.any_eq_true _ _).mp opens
  obtain ⟨later, rfl⟩ := List.getLast?_eq_some_iff.mp last
  obtain ⟨rest, rfl⟩ := List.head?_eq_some_iff.mp (beq_iff_eq.mp begins)
  rw [List.reverse_concat, spaced_head _ _ (List.cons_ne_nil opening rest)]
  rfl

theorem spaced_closes (held : List (List Char)) (closing : Char)
    (closes : held.head?.any (fun word => word.getLast? == some closing) = true) :
    (spaced held.reverse).getLast? = some closing := by
  obtain ⟨last, first, ends⟩ := (Option.any_eq_true _ _).mp closes
  obtain ⟨earlier, rfl⟩ := List.head?_eq_some_iff.mp first
  obtain ⟨front, rfl⟩ := List.getLast?_eq_some_iff.mp (beq_iff_eq.mp ends)
  rw [List.reverse_cons, spaced_last _ _ (List.append_ne_nil_of_right_ne_nil front (List.cons_ne_nil closing []))]
  exact List.getLast?_concat

theorem whole_form (held : List (List Char)) (whole : Whole held) (solid : ∀ word ∈ held, ∀ c ∈ word, isBlank c = false) :
    Form (spaced held.reverse) := by
  cases whole with
  | word word block string =>
      rw [List.reverse_singleton, spaced, List.intercalate_singleton]
      exact .word word (solid word List.mem_cons_self) block string
  | block held opens closes =>
      obtain ⟨source, same⟩ := enclosed _ '{' '}' (spaced_opens held '{' opens) (spaced_closes held '}' closes) (by decide)
      exact same ▸ .block source
  | string held opens closes =>
      obtain ⟨text, same⟩ := enclosed _ '(' ')' (spaced_opens held '(' opens) (spaced_closes held ')' closes) (by decide)
      exact same ▸ .string text

theorem rest_form (scan : Scan) (inside : scan ≠ .outside) (sound : scan.Sound) :
    Form (spaced scan.words.reverse ++ scan.closing) := by
  have first (opening : Char) (opens : (spaced scan.words.reverse).head? = some opening) :
      (spaced scan.words.reverse ++ scan.closing).head? = some opening := by
    rw [List.head?_append, opens]
    rfl
  have last (closing : Char) (closes : scan.closing.getLast? = some closing) :
      (spaced scan.words.reverse ++ scan.closing).getLast? = some closing := by
    rw [List.getLast?_append, closes]
    rfl
  cases scan with
  | outside => exact absurd rfl inside
  | inBlock held depth =>
      obtain ⟨deep, opens⟩ := sound
      have closes : (List.replicate depth '}').getLast? = some '}' := by
        rw [List.getLast?_replicate, if_neg (Nat.ne_of_gt deep)]
      obtain ⟨source, same⟩ := enclosed _ '{' '}' (first '{' (spaced_opens held '{' opens)) (last '}' closes) (by decide)
      exact same ▸ .block source
  | inString held =>
      obtain ⟨text, same⟩ := enclosed _ '(' ')' (first '(' (spaced_opens held '(' sound)) (last ')' rfl) (by decide)
      exact same ▸ .string text

theorem closing_solid (scan : Scan) : ∀ c ∈ scan.closing, isBlank c = false := by
  cases scan with
  | outside => exact fun _ none => nomatch none
  | inBlock held depth =>
      intro c member
      rw [List.eq_of_mem_replicate member]
      decide
  | inString held =>
      intro c member
      rw [List.mem_singleton.mp member]
      decide

theorem made_tidy (words : List (List Char)) (token : List Char)
    (solid : ∀ word ∈ words, word ≠ [] ∧ ∀ c ∈ word, isBlank c = false) (made : Made words token) : Tidy token := by
  have tidy (held : List (List Char)) (within : held ⊆ words) : Tidy (spaced held.reverse) :=
    spaced_tidy _ fun word member => solid word (within (List.mem_reverse.mp member))
  cases made with
  | whole held whole within => exact tidy held within
  | rest scan inside sound within =>
      have closing := closing_solid scan
      refine tidy_append _ _ (tidy _ within) (solid_tidy _ closing) fun _ _ d first _ => ?_
      exact closing d (List.mem_of_head? first)

theorem made_form (words : List (List Char)) (token : List Char)
    (solid : ∀ word ∈ words, word ≠ [] ∧ ∀ c ∈ word, isBlank c = false) (made : Made words token) : Form token := by
  cases made with
  | whole held whole within => exact whole_form held whole fun word member => (solid word (within member)).2
  | rest scan inside sound within => exact rest_form scan inside sound

theorem token_made (line token : String) (member : token ∈ tokens line) : Form token.toList ∧ Tidy token.toList := by
  obtain ⟨text, cut, rfl⟩ := List.mem_map.mp member
  rw [String.toList_ofList]
  have solid := fragments_clear line.toList
  have made := tokens_made _ _ .outside trivial (List.nil_subset _) (List.Subset.refl _) text cut
  exact ⟨made_form _ text solid made, made_tidy _ text solid made⟩

theorem between_concat (opening closing : Char) (inner : List Char) :
    between? opening closing (opening :: (inner ++ [closing])) = some inner := by
  rw [between?, if_pos ⟨rfl, List.getLast?_concat⟩, List.dropLast_concat]

theorem block_constant (token : String) (source : List Char) (is : token.toList = '{' :: (source ++ ['}'])) :
    constant? token = some (.block (String.ofList (trim source))) := by
  have block : block? ('{' :: (source ++ ['}'])) = some (.block (String.ofList (trim source))) :=
    congrArg _ (between_concat '{' '}' source)
  simp only [constant?, is]
  change (none <|> none <|> none <|> block? _ <|> name? _) = _
  rw [block]
  rfl

theorem string_constant (token : String) (text : List Char) (is : token.toList = '(' :: (text ++ [')'])) :
    constant? token = some (.string (String.ofList text)) := by
  have string : string? ('(' :: (text ++ [')'])) = some (.string (String.ofList text)) :=
    congrArg _ (between_concat '(' ')' text)
  simp only [constant?, is]
  change (none <|> none <|> string? _ <|> block? _ <|> name? _) = _
  rw [string]
  rfl

theorem between_infix (opening closing : Char) (token inner : List Char)
    (is : between? opening closing token = some inner) : inner <:+: token := by
  cases token with
  | nil => cases is
  | cons first rest =>
      rw [between?] at is
      split at is
      · obtain rfl := Option.some.inj is
        exact rest.dropLast_prefix.isInfix.trans (List.suffix_cons first rest).isInfix
      · cases is

theorem constant_source (token source : String) (is : constant? token = some (.block source)) :
    ∃ inner, inner <:+: token.toList ∧ source.toList = trim inner := by
  simp only [constant?, Option.orElse_eq_orElse, Option.orElse_eq_or, Option.or_eq_some_iff] at is
  rcases is with number | ⟨_, boolean | ⟨_, string | ⟨_, block | ⟨_, name⟩⟩⟩⟩
  · cases number_scalar _ _ number
  · cases boolean_scalar _ _ boolean
  · obtain ⟨text, _, other⟩ := Option.map_eq_some_iff.mp string
    cases other
  · obtain ⟨inner, inside, same⟩ := Option.map_eq_some_iff.mp block
    cases same
    exact ⟨inner, between_infix '{' '}' _ inner inside, String.toList_ofList⟩
  · rw [name?.eq_def] at name
    split at name <;> cases name

theorem block_source_spaced (token source : String) (tidy : Tidy token.toList)
    (is : constant? token = some (.block source)) : spaced (fragments source.toList) = source.toList := by
  obtain ⟨inner, within, same⟩ := constant_source token source is
  rw [same]
  exact trim_spaced inner (tidy_within inner _ within tidy)

end MiniPostScript.Token
