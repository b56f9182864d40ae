import Legba.CharacterReferences
import Legba.JudgeReplies

/-!
# Names of entities under the canon

A name is stripped of character references, invisible letters, possessives and
surrounding punctuation, and then looked up, with and without its article,
among the region adjectives, the demonyms and the aliases.  What it stands for
is stripped once more.  The class a mention came with is overridden where the
name is known to be a country, a region, an organization or a place.
-/

namespace Legba.EntityNames

open RegexScan CharacterReferences
open JudgeReplies (isSpace strip)

structure CharData where
  /-- `html.entities.html5` -/
  names : Text → Option Text
  /-- `str.lower` on texts with letters beyond Latin-1. -/
  lower : Text → Text
  /-- `\w` beyond Latin-1. -/
  isWord : Char → Bool
  /-- The lower-cased names of the installed gazetteer. -/
  isoCountries : List Text

def countryClass : Text := "country".toList

def organizationClass : Text := "organization".toList

def locationClass : Text := "location".toList

def personClass : Text := "person".toList

def defaultClass : Text := "entity".toList

def isLatin (letter : Char) : Bool := letter.toNat < 256

def lowerLatin (letter : Char) : Char :=
  if ('A' ≤ letter ∧ letter ≤ 'Z') ∨ ('À' ≤ letter ∧ letter ≤ 'Þ' ∧
      letter ≠ '×') then Char.ofNat (letter.toNat + 32)
  else letter

def isWordLatin (letter : Char) : Bool :=
  letter.isAlphanum ||
    ['_', 'ª', '²', '³', 'µ', '¹', 'º', '¼', '½', '¾'].contains letter ||
    ('À' ≤ letter && letter ≠ '×' && letter ≠ '÷')

def foldLetter (letter : Char) : Char :=
  if letter = '\u017f' then 's'
  else if letter = '\u212a' then 'k'
  else if letter = '\u0130' ∨ letter = '\u0131' then 'i'
  else letter.toLower

def stripChars : List Char :=
  [' ', '\t', '\n', '\r', '"', '\'', '`', '.', ',', ';', ':', '!', '?', '(',
    ')', '[', ']', '{', '}', '<', '>', '«', '»', '\u201c', '\u201d',
    '\u2018', '\u2019']

def zeroWidthChars : List Char :=
  ['\u200b', '\u200c', '\u200d', '\u2060', '\ufeff']

/-- The marks before the `s` of a possessive. -/
def apostrophes : List Char := ['\'', '\u2019', '\u02bc', '\u2018']

def isStripChar (letter : Char) : Bool := stripChars.contains letter

def collapseSpaces (text : Text) : Text := Words.collapse isSpace ' ' text

def matchLiteral : Text → Text → Option Text
  | [], text => some text
  | _ :: _, [] => none
  | letter :: rest, other :: text =>
    if foldLetter other = letter then matchLiteral rest text else none

def matchPhrase : List String → Text → Option Text
  | [], text => some text
  | [word], text => matchLiteral word.toList text
  | word :: next :: words, text =>
    match matchLiteral word.toList text with
    | some (gap :: behind) =>
      if isSpace gap then
        matchPhrase (next :: words) (behind.dropWhile isSpace)
      else none
    | _ => none

def known (table : List String) (text : Text) : Bool :=
  table.contains (String.ofList text)

def lookupText (table : List (String × String)) (low : Text) : Option Text :=
  (table.lookup (String.ofList low)).map String.toList

/-- `_POSSESSIVE_RE` -/
def dropPossessive (text : Text) : Text :=
  match text.reverse with
  | last :: mark :: rest =>
    if foldLetter last = 's' ∧ apostrophes.contains mark then
      (rest.dropWhile isSpace).reverse
    else text
  | _ => text

def peelPossessives : ℕ → Text → Text
  | 0, text => text
  | fuel + 1, text =>
    let peeled := strip (dropPossessive text)
    if peeled = text then text else peelPossessives fuel peeled

/-- What `_strip_name` does behind `html.unescape`. -/
def stripPlain (text : Text) : Text :=
  let visible := text.filter fun letter => !zeroWidthChars.contains letter
  let spaced := strip (collapseSpaces visible)
  let peeled := peelPossessives (spaced.length + 1) spaced
  strip (collapseSpaces (Words.strip isStripChar peeled))

def articles : List String := ["the", "a", "an"]

def aliasMap : List (String × String) :=
  [("us", "United States"), ("u.s.", "United States"),
    ("u.s", "United States"), ("usa", "United States"),
    ("u.s.a.", "United States"), ("u.s.a", "United States"),
    ("united states", "United States"),
    ("united states of america", "United States"),
    ("america", "United States"), ("the united states", "United States"),
    ("uk", "United Kingdom"), ("u.k.", "United Kingdom"),
    ("u.k", "United Kingdom"), ("britain", "United Kingdom"),
    ("great britain", "United Kingdom"), ("united kingdom", "United Kingdom"),
    ("uae", "United Arab Emirates"), ("u.a.e.", "United Arab Emirates"),
    ("united arab emirates", "United Arab Emirates"), ("eu", "European Union"),
    ("european union", "European Union"),
    ("drc", "Democratic Republic of the Congo"),
    ("south korea", "South Korea"), ("north korea", "North Korea"),
    ("russia", "Russia"), ("un", "United Nations"), ("u.n.", "United Nations"),
    ("united nations", "United Nations")]

def demonymMap : List (String × String) :=
  [("american", "United States"), ("british", "United Kingdom"),
    ("french", "France"), ("german", "Germany"), ("italian", "Italy"),
    ("spanish", "Spain"), ("russian", "Russia"), ("ukrainian", "Ukraine"),
    ("chinese", "China"), ("japanese", "Japan"), ("indian", "India"),
    ("pakistani", "Pakistan"), ("iranian", "Iran"), ("iraqi", "Iraq"),
    ("israeli", "Israel"), ("palestinian", "Palestine"), ("syrian", "Syria"),
    ("lebanese", "Lebanon"), ("yemeni", "Yemen"), ("saudi", "Saudi Arabia"),
    ("egyptian", "Egypt"), ("turkish", "Turkey"), ("qatari", "Qatar"),
    ("afghan", "Afghanistan"), ("polish", "Poland"), ("canadian", "Canada"),
    ("mexican", "Mexico"), ("brazilian", "Brazil"), ("argentine", "Argentina"),
    ("argentinian", "Argentina"), ("australian", "Australia"),
    ("indonesian", "Indonesia"), ("nigerian", "Nigeria"),
    ("venezuelan", "Venezuela"), ("sudanese", "Sudan"),
    ("south korean", "South Korea"), ("north korean", "North Korea"),
    ("albanian", "Albania"), ("austrian", "Austria"), ("belgian", "Belgium"),
    ("bosnian", "Bosnia and Herzegovina"), ("bulgarian", "Bulgaria"),
    ("croatian", "Croatia"), ("cypriot", "Cyprus"), ("czech", "Czechia"),
    ("danish", "Denmark"), ("dutch", "Netherlands"), ("estonian", "Estonia"),
    ("finnish", "Finland"), ("greek", "Greece"), ("hungarian", "Hungary"),
    ("icelandic", "Iceland"), ("irish", "Ireland"), ("latvian", "Latvia"),
    ("lithuanian", "Lithuania"), ("luxembourgish", "Luxembourg"),
    ("macedonian", "North Macedonia"), ("maltese", "Malta"),
    ("moldovan", "Moldova"), ("montenegrin", "Montenegro"),
    ("norwegian", "Norway"), ("portuguese", "Portugal"),
    ("romanian", "Romania"), ("serbian", "Serbia"), ("slovak", "Slovakia"),
    ("slovenian", "Slovenia"), ("swedish", "Sweden"), ("swiss", "Switzerland"),
    ("belarusian", "Belarus"), ("georgian", "Georgia"),
    ("armenian", "Armenia"), ("azerbaijani", "Azerbaijan"),
    ("kosovar", "Kosovo"), ("jordanian", "Jordan"), ("kuwaiti", "Kuwait"),
    ("omani", "Oman"), ("bahraini", "Bahrain"),
    ("emirati", "United Arab Emirates"), ("kazakh", "Kazakhstan"),
    ("uzbek", "Uzbekistan"), ("turkmen", "Turkmenistan"),
    ("tajik", "Tajikistan"), ("kyrgyz", "Kyrgyzstan"),
    ("bangladeshi", "Bangladesh"), ("sri lankan", "Sri Lanka"),
    ("nepalese", "Nepal"), ("nepali", "Nepal"), ("bhutanese", "Bhutan"),
    ("maldivian", "Maldives"), ("burmese", "Myanmar"),
    ("myanmarese", "Myanmar"), ("thai", "Thailand"), ("vietnamese", "Vietnam"),
    ("cambodian", "Cambodia"), ("laotian", "Laos"), ("malaysian", "Malaysia"),
    ("singaporean", "Singapore"), ("filipino", "Philippines"),
    ("philippine", "Philippines"), ("mongolian", "Mongolia"),
    ("taiwanese", "Taiwan, Province of China"),
    ("bruneian", "Brunei Darussalam"), ("fijian", "Fiji"),
    ("papua new guinean", "Papua New Guinea"),
    ("new zealander", "New Zealand"), ("kenyan", "Kenya"),
    ("liberian", "Liberia"), ("ethiopian", "Ethiopia"), ("ghanaian", "Ghana"),
    ("senegalese", "Senegal"), ("ivorian", "Côte d'Ivoire"),
    ("malian", "Mali"), ("nigerien", "Niger"), ("chadian", "Chad"),
    ("cameroonian", "Cameroon"), ("congolese", "Congo"), ("angolan", "Angola"),
    ("mozambican", "Mozambique"), ("zambian", "Zambia"),
    ("zimbabwean", "Zimbabwe"), ("malawian", "Malawi"),
    ("tanzanian", "Tanzania"), ("ugandan", "Uganda"), ("rwandan", "Rwanda"),
    ("burundian", "Burundi"), ("somali", "Somalia"), ("eritrean", "Eritrea"),
    ("djiboutian", "Djibouti"), ("south african", "South Africa"),
    ("namibian", "Namibia"), ("botswanan", "Botswana"),
    ("moroccan", "Morocco"), ("algerian", "Algeria"), ("tunisian", "Tunisia"),
    ("libyan", "Libya"), ("mauritanian", "Mauritania"), ("gabonese", "Gabon"),
    ("togolese", "Togo"), ("beninese", "Benin"), ("guinean", "Guinea"),
    ("gambian", "Gambia"), ("sierra leonean", "Sierra Leone"),
    ("madagascan", "Madagascar"), ("malagasy", "Madagascar"),
    ("colombian", "Colombia"), ("peruvian", "Peru"), ("chilean", "Chile"),
    ("bolivian", "Bolivia"), ("ecuadorian", "Ecuador"),
    ("paraguayan", "Paraguay"), ("uruguayan", "Uruguay"),
    ("guatemalan", "Guatemala"), ("honduran", "Honduras"),
    ("salvadoran", "El Salvador"), ("nicaraguan", "Nicaragua"),
    ("costa rican", "Costa Rica"), ("panamanian", "Panama"), ("cuban", "Cuba"),
    ("dominican", "Dominican Republic"), ("haitian", "Haiti"),
    ("jamaican", "Jamaica"), ("trinidadian", "Trinidad and Tobago")]

def regionAdjectiveMap : List (String × String) :=
  [("african", "Africa"), ("european", "Europe"), ("europe", "Europe"),
    ("asian", "Asia"), ("north american", "North America"),
    ("south american", "South America"), ("oceanian", "Oceania"),
    ("antarctic", "Antarctica")]

def aliasOrg : List String :=
  ["European Union", "United Nations"]

def junkEntities : List String :=
  ["tv", "radio", "online"]

def nationOf (low : Text) : Option Text :=
  lookupText regionAdjectiveMap low <|> lookupText demonymMap low

def collapseTarget (low : Text) : Option Text :=
  nationOf low <|> lookupText aliasMap low <|>
    if 4 < low.length ∧ low.getLast? = some 's' ∧ 3 < low.dropLast.length then
      nationOf low.dropLast
    else none

/-! ## Surfaces -/

def curatedCountries : List String :=
  ["russia", "south korea", "north korea", "united states", "united kingdom",
    "united arab emirates", "democratic republic of the congo", "czechia",
    "iran", "syria", "vietnam", "laos", "moldova", "tanzania", "bolivia",
    "venezuela", "turkey", "turkiye", "kosovo", "palestine"]

def knownRegions : List String :=
  ["west bank", "gaza", "gaza strip", "middle east", "the levant", "levant",
    "strait of hormuz", "horn of africa", "sahel", "maghreb", "mesopotamia",
    "anatolia", "donbas", "donbass", "crimea", "golan heights", "golan",
    "sinai", "sinai peninsula", "kurdistan", "nagorno-karabakh",
    "transnistria", "abkhazia", "south ossetia", "xinjiang", "west coast",
    "east coast", "gulf coast", "west africa", "east africa", "north africa",
    "southern africa", "central africa", "sub-saharan africa", "the balkans",
    "south china sea", "east china sea", "sea of azov", "indo-pacific",
    "asia-pacific", "pacific rim", "arabian peninsula", "iberian peninsula",
    "korean peninsula", "great lakes region", "odisha", "kerala", "punjab",
    "sindh", "balochistan", "gilgit-baltistan", "tigray", "amhara", "oromia",
    "darfur", "north kivu", "south kivu", "rakhine", "kachin", "aceh", "papua",
    "catalonia", "bavaria", "sverdlovsk region", "rostov region",
    "belgorod region"]

def sportsTeamSurfaces : List String :=
  ["minnesota twins", "new york yankees", "boston red sox",
    "los angeles dodgers", "chicago cubs", "san francisco giants",
    "houston astros", "atlanta braves", "los angeles lakers", "boston celtics",
    "golden state warriors", "chicago bulls", "new york knicks", "miami heat",
    "green bay packers", "dallas cowboys", "kansas city chiefs",
    "new england patriots", "pittsburgh steelers", "san francisco 49ers",
    "toronto maple leafs", "montreal canadiens", "detroit red wings",
    "manchester united", "manchester city", "real madrid", "bayern munich",
    "paris saint-germain", "inter milan", "ac milan", "borussia dortmund"]

def knownOrgSurfaces : List String :=
  ["opec", "opec+", "nato", "asean", "brics", "ecowas", "mercosur", "gcc",
    "imf", "wto", "unicef", "unesco", "unhcr", "interpol", "opcw", "iaea",
    "wipo", "unctad", "unrwa", "white house", "kremlin", "pentagon",
    "state duma", "duma", "knesset", "politburo", "yonhap", "tass", "reuters",
    "xinhua", "interfax", "sputnik", "anadolu", "kyodo", "al jazeera",
    "associated press", "agence france-presse", "ria novosti", "bloomberg",
    "politico", "axios"]

def orgSuffixTokens : List String :=
  ["inc", "inc.", "corp", "corp.", "corporation", "co", "co.", "ltd", "ltd.",
    "llc", "plc", "gmbh", "ag", "sa", "s.a.", "nv", "n.v.", "spa", "s.p.a.",
    "group", "holdings", "holding", "industries", "motors", "motor", "steel",
    "airlines", "airways", "bank", "telecom", "pharmaceuticals", "pharma",
    "technologies", "systems", "partners", "ventures", "capital", "asset",
    "financial", "insurance", "petroleum", "energy", "electric", "electronics",
    "automotive", "aerospace", "logistics", "shipping", "assembly",
    "legislature", "parliament", "congress", "senate", "ministry",
    "department", "committee", "commission", "council", "authority", "agency",
    "bureau", "directorate", "secretariat", "tribunal", "court", "judiciary",
    "university", "college", "institute", "institution", "academy",
    "foundation", "association", "federation", "union", "league",
    "organization", "organisation", "society", "syndicate", "consortium",
    "community", "forum", "trust", "regiment", "brigade", "battalion", "corps",
    "navy", "army", "force", "forces", "guard", "mission", "project", "news",
    "press", "media", "broadcasting", "broadcaster", "network", "post",
    "times", "herald", "tribune", "gazette", "chronicle", "journal", "daily",
    "wire", "duma", "knesset", "bundestag", "majlis", "politburo", "sejm"]

def orgSuffixPhrases : List String :=
  ["motor group", "motor company", "heavy industries", "steel industries",
    "holdings group", "financial group", "banking group", "media group",
    "petroleum corp", "national bank", "central bank", "reserve bank"]

def surnameLikeSuffixes : List String :=
  ["steel", "bank", "co", "court", "union", "board", "post", "times", "press", "news"]

def commonGivenNames : List String :=
  ["michelle", "john", "james", "robert", "michael", "david", "william",
    "mary", "patricia", "jennifer", "linda", "elizabeth", "susan", "sarah",
    "richard", "joseph", "thomas", "charles", "daniel", "matthew", "andrew",
    "george", "frank", "danny", "billy", "emily", "emma", "olivia", "sophia",
    "anna", "laura", "julia", "kate", "katherine", "margaret", "helen",
    "alice", "grace", "victoria", "rachel", "peter", "paul", "mark", "luke",
    "henry", "edward", "arthur", "alan", "brian", "kevin", "stephen", "steven",
    "eric", "jack", "harry", "samuel"]

/-- `_ORG_HEAD_RE` -/
def orgHeads : List (List String) :=
  [["bank", "of"], ["university", "of"], ["ministry", "of"],
    ["department", "of"], ["bureau", "of"], ["federal", "reserve"],
    ["european", "central", "bank"], ["people's", "bank"], ["peoples", "bank"],
    ["reserve", "bank", "of"], ["central", "bank", "of"]]

/-- The institutions of `_ORG_INFIX_RE`. -/
def institutions : List String :=
  ["court", "ministry", "department", "commission", "committee", "council",
    "bureau", "directorate", "secretariat", "agency", "authority", "assembly",
    "parliament", "congress", "senate", "board", "tribunal", "institute",
    "university", "college", "federation", "association", "organisation",
    "organization"]

def institutionLinks : List String := ["of", "on", "for"]

def placeSuffixTokens : List String :=
  ["quay", "tower", "towers", "bridge", "square", "plaza", "park", "gardens",
    "stadium", "arena", "airport", "station", "terminal", "harbour", "harbor",
    "port", "bay", "beach", "island", "islands", "isles", "peninsula", "cape",
    "valley", "canyon", "mountain", "mountains", "hills", "river", "lake",
    "falls", "desert", "district", "borough", "county", "province",
    "prefecture", "region", "territory", "border", "crossing", "highlands",
    "lowlands", "delta", "strait", "gulf", "sea", "channel", "reef", "atoll",
    "village", "town", "city", "metro", "boulevard", "avenue", "street",
    "road", "highway", "junction", "temple", "mount", "fort", "palace",
    "mosque", "cathedral", "base", "oblast", "governorate", "ocean"]

def placeSuffixPhrases : List String :=
  ["legislative assembly", "national park", "world heritage site"]

def knownPlaces : List String :=
  ["earth", "moon", "mars", "europe", "asia", "africa", "antarctica",
    "north america", "south america", "eurasia", "oceania", "arctic",
    "scandinavia", "balkans", "caucasus", "patagonia", "siberia", "kashmir",
    "tibet", "sahara", "amazon", "tristan da cunha", "tristan de cunha",
    "yerevan", "tbilisi", "baku", "astana", "tashkent", "bishkek", "ashgabat",
    "dushanbe", "kyiv", "kiev", "minsk", "chisinau", "moscow", "beijing",
    "shanghai", "tokyo", "seoul", "pyongyang", "bangkok", "jakarta", "manila",
    "hanoi", "singapore", "kuala lumpur", "delhi", "mumbai", "karachi",
    "dhaka", "colombo", "kathmandu", "tehran", "baghdad", "damascus", "beirut",
    "amman", "riyadh", "doha", "dubai", "abu dhabi", "kuwait city", "muscat",
    "sanaa", "cairo", "tripoli", "tunis", "algiers", "rabat", "khartoum",
    "nairobi", "addis ababa", "lagos", "abuja", "accra", "dakar", "kinshasa",
    "luanda", "harare", "lusaka", "kampala", "kigali", "johannesburg",
    "cape town", "pretoria", "casablanca", "london", "paris", "berlin",
    "madrid", "rome", "vienna", "warsaw", "prague", "budapest", "athens",
    "lisbon", "amsterdam", "brussels", "geneva", "zurich", "munich",
    "frankfurt", "milan", "barcelona", "stockholm", "oslo", "copenhagen",
    "helsinki", "dublin", "istanbul", "ankara", "washington", "new york",
    "los angeles", "chicago", "toronto", "ottawa", "mexico city", "bogota",
    "lima", "santiago", "buenos aires", "brasilia", "sao paulo",
    "rio de janeiro", "caracas", "sydney", "melbourne", "canberra",
    "wellington", "auckland", "hong kong", "taipei", "macau", "yekaterinburg",
    "saint petersburg", "st petersburg", "rostov", "sochi", "novosibirsk",
    "vladivostok", "kaliningrad", "belgorod", "kursk", "kharkiv", "kherson",
    "mykolaiv", "zaporizhzhia", "dnipro", "lviv", "odesa", "odessa",
    "mariupol", "donetsk", "luhansk", "sevastopol", "kabul", "kandahar",
    "islamabad", "lahore", "peshawar", "quetta", "jerusalem", "tel aviv",
    "haifa", "ramallah", "gaza city", "rafah", "khan younis", "aleppo", "homs",
    "idlib", "latakia", "raqqa", "mosul", "basra", "erbil", "fallujah",
    "kirkuk", "najaf", "isfahan", "mashhad", "tabriz", "bandar abbas",
    "natanz", "jeddah", "mecca", "medina", "hodeidah", "aden", "taiz",
    "benghazi", "misrata", "port sudan", "omdurman", "el fasher", "goma",
    "mogadishu", "bamako", "ouagadougou", "niamey", "n'djamena", "alexandria",
    "damietta", "port said", "suez", "sharm el-sheikh", "crete", "rhodes",
    "thessaloniki", "izmir", "gaziantep", "diyarbakir", "busan", "incheon",
    "kaohsiung", "chongqing", "guangzhou", "shenzhen", "kolkata", "chennai",
    "bengaluru", "hyderabad", "ahmedabad", "srinagar"]

/-- `_PLACE_HEAD_RE` -/
def placeHeads : List String :=
  ["temple", "mount", "mt", "fort", "palace", "mosque", "cathedral",
    "basilica", "shrine", "kfar", "kafr", "beit", "bayt", "deir", "dayr",
    "wadi", "jabal", "jebel", "khirbet", "umm", "tel", "ain", "bir", "port",
    "cape", "camp", "lake", "river", "gulf", "strait", "valley", "mountain",
    "island", "city", "district"]

def orgTokenStrip : List Char :=
  [' ', '\t', '"', '\'', '`', '.', ',', ';', ':', '!', '?', '(', ')', '[', ']', '{', '}']

def surfaceTokens (low : Text) : List Text :=
  ((Words.words isSpace low).map (Words.strip orgTokenStrip.contains)).filter
    fun token => !token.isEmpty

def hasPlaceHead (stripped : Text) : Bool :=
  placeHeads.any fun head =>
    match matchLiteral head.toList (stripped.dropWhile isSpace) with
    | some (gap :: behind) => isSpace gap && !(behind.dropWhile isSpace).isEmpty
    | _ => false

def endsInPhrase (phrases : List String) (low : Text) : Bool :=
  phrases.any fun phrase => phrase.toList.isSuffixOf low

/-- The last words of `is_org_surface`. -/
def endsAsOrg (low : Text) : Bool :=
  let tokens := surfaceTokens low
  let last := tokens.getLastD []
  if tokens.length < 2 then false
  else if endsInPhrase orgSuffixPhrases low then true
  else if known orgSuffixTokens last then
    !(tokens.length = 2 && known surnameLikeSuffixes last &&
      known commonGivenNames (tokens.headD []))
  else false

/-- The last words of `is_place_surface`. -/
def endsAsPlace (low : Text) : Bool :=
  let tokens := surfaceTokens low
  endsInPhrase placeSuffixPhrases low ||
    (2 ≤ tokens.length && known placeSuffixTokens (tokens.getLastD []))

/-! ## The canon -/

section

variable (D : CharData)

def lowerText (text : Text) : Text :=
  if text.all isLatin then text.map lowerLatin else D.lower text

def isWord (letter : Char) : Bool :=
  if isLatin letter then isWordLatin letter else D.isWord letter

def atBoundary (text : Text) : Bool := !text.head?.any (isWord D)

def stripLeadingArticle (text : Text) : Text :=
  let behind := articles.findSome? fun article =>
    (matchLiteral article.toList text).filter (atBoundary D)
  match behind with
  | none => text
  | some behind =>
    let rest := strip (behind.dropWhile isSpace)
    if rest.length < 2 then text else rest

/-- `_strip_name`, which raises where `html.unescape` does. -/
def stripName (name : Text) : Option Text :=
  (unescape D.names name).map stripPlain

def referent (stripped : Text) : Option Text :=
  let low := lowerText D stripped
  collapseTarget low <|>
    let bare := lowerText D (stripLeadingArticle D stripped)
    if bare ≠ low then collapseTarget bare else none

def isJunk (stripped : Text) : Bool :=
  known junkEntities (lowerText D stripped)

def countryNameSet : List Text :=
  D.isoCountries ++ curatedCountries.map String.toList

def isCountryName (name : Text) : Bool :=
  !name.isEmpty && (countryNameSet D).contains (lowerText D name)

def isOrgPattern (name : Text) : Bool :=
  !name.isEmpty && ((matchLiteral "nws".toList name).any (atBoundary D) ||
    decide ("national weather service".toList <:+: lowerText D name))

def hasOrgHead (stripped : Text) : Bool :=
  orgHeads.any fun head => (matchPhrase head (stripped.dropWhile isSpace)).any (atBoundary D)

def atInstitution (text : Text) : Bool :=
  institutions.any fun institution => institutionLinks.any fun link =>
    (matchPhrase [institution, link] text).any (atBoundary D)

/-- `_ORG_INFIX_RE` is found behind a letter which is one of a word or not. -/
def hasInstitution : Bool → Text → Bool
  | _, [] => false
  | inWord, letter :: rest =>
    (!inWord && atInstitution D (letter :: rest)) || hasInstitution (isWord D letter) rest

/-- A stripped name in the tables and patterns of `is_org_surface`. -/
def isOrgText (stripped : Text) : Bool :=
  let low := lowerText D stripped
  !stripped.isEmpty && (known sportsTeamSurfaces low ||
    known knownOrgSurfaces low || hasOrgHead D stripped ||
    hasInstitution D false stripped || endsAsOrg low)

def isPlaceText (stripped : Text) : Bool :=
  let low := lowerText D stripped
  !stripped.isEmpty && (known knownPlaces low || hasPlaceHead stripped || endsAsPlace low)

def isRegionText (stripped : Text) : Bool :=
  !stripped.isEmpty && known knownRegions (lowerText D (stripLeadingArticle D stripped))

def isOrgSurface (name : Text) : Option Bool :=
  (stripName D name).map (isOrgText D)

def isPlaceSurface (name : Text) : Option Bool :=
  (stripName D name).map (isPlaceText D)

def isRegionSurface (name : Text) : Option Bool :=
  (stripName D name).map (isRegionText D)

def givenClass (nerClass : Text) : Text :=
  let stripped := strip (if nerClass = [] then defaultClass else nerClass)
  if stripped = [] then defaultClass else stripped

def isRegionMention (canonical cls : Text) : Option Bool :=
  if cls = personClass then some false else isRegionSurface D canonical

def isOrgMention (canonical : Text) : Option Bool :=
  if isOrgPattern D canonical then some true else isOrgSurface D canonical

def correctClass (canonical cls : Text) : Option Text := do
  if isCountryName D canonical then return countryClass
  let isRegion ← isRegionMention D canonical cls
  if isRegion then return locationClass
  if known aliasOrg canonical then return organizationClass
  let isOrg ← isOrgMention D canonical
  if isOrg then return organizationClass
  let isPlace ← isPlaceSurface D canonical
  return if isPlace then locationClass else cls

def canonicalizeEntity (name nerClass : Text) : Option (Text × Text) := do
  let cls := givenClass nerClass
  let stripped ← stripName D name
  if stripped = [] then return ([], cls)
  if isJunk D stripped then return ([], cls)
  let canonical ← stripName D ((referent D stripped).getD stripped)
  if canonical = [] then return ([], cls)
  let corrected ← correctClass D canonical cls
  return (canonical, corrected)

end

end Legba.EntityNames
