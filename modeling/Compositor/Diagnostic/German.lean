import Compositor.Language

/-!
# German wording

The texts of messages in German. A text which is not listed stays English.
-/

namespace Compositor.German

def catalogue : List (String × String) := [
  ("Undefined control sequence %s",
    "Undefinierte Steuersequenz %s"),
  ("Too many \x7d's",
    "Zu viele \x7d"),
  ("Extra %s, or forgotten %s",
    "Überzähliges %s oder vergessenes %s"),
  ("Extra \\or",
    "Überzähliges \\or"),
  ("Extra \\else",
    "Überzähliges \\else"),
  ("Extra \\fi",
    "Überzähliges \\fi"),
  ("Missing number, treated as zero",
    "Fehlende Zahl, als Null behandelt"),
  ("Number too big",
    "Zahl zu groß"),
  ("Dimension too large",
    "Dimension zu groß"),
  ("Illegal unit of measure (pt inserted)",
    "Unzulässige Maßeinheit (pt eingefügt)"),
  ("Missing %s inserted",
    "Fehlendes %s eingefügt"),
  ("Illegal magnification (%s), must be between 1 and %s",
    "Unzulässige Vergrößerung (%s), erlaubt ist 1 bis %s"),
  ("Bad register code (%s)",
    "Ungültige Registernummer (%s)"),
  ("Misplaced %s",
    "Falsch platziertes %s"),
  ("You can't use a prefix with `%s'",
    "Ein Präfix ist mit `%s' nicht erlaubt"),
  ("Font %s=%s not loadable: font file not found",
    "Font %s=%s nicht ladbar: Fontdatei nicht gefunden"),
  ("(\\end occurred inside a group at level %s)",
    "(\\end innerhalb einer Gruppe auf Ebene %s)"),
  ("Paragraph ended before %s was complete",
    "Absatz endete, bevor %s vollständig war"),
  ("Use of %s doesn't match its definition",
    "Verwendung von %s passt nicht zur Definition"),
  ("Text line contains an invalid character %U",
    "Textzeile enthält ein ungültiges Zeichen %U"),
  ("Display math should end with $$",
    "Abgesetzte Formeln müssen mit $$ enden"),
  ("Missing control sequence inserted",
    "Fehlende Steuersequenz eingefügt"),
  ("Arithmetic overflow",
    "Arithmetischer Überlauf"),
  ("Missing \\endcsname inserted",
    "Fehlendes \\endcsname eingefügt"),
  ("You can't use %s after \\the",
    "%s ist nach \\the nicht erlaubt"),
  ("Invalid code (%s), should be in the range 0..%s",
    "Ungültiger Code (%s), erlaubt ist 0..%s"),
  ("I can't find file `%s'",
    "Datei `%s' nicht gefunden"),
  ("Incomplete %s; all text was ignored after line %s",
    "Unvollständiges %s; aller Text nach Zeile %s wurde ignoriert"),
  ("That makes %s errors; please try again.",
    "Das sind %s Fehler; bitte noch einmal versuchen."),
  ("Incompatible magnification (%s); the previous value will be retained (%s)",
    "Inkompatible Vergrößerung (%s); der bisherige Wert bleibt erhalten (%s)"),
  ("No typesetter configured",
    "Kein Satzprogramm konfiguriert"),
  ("No token stream factory configured",
    "Keine Token-Quelle konfiguriert"),
  ("Configuration error: %s",
    "Konfigurationsfehler: %s"),
  ("Interaction aborted",
    "Interaktion abgebrochen"),
  ("This can't happen (%s)",
    "Das darf nicht passieren (%s)"),
  ("Did you mean %s?",
    "Meinten Sie %s?"),
  ("I'm ignoring this; it doesn't match any \\if.",
    "Das wird ignoriert; es passt zu keinem \\if."),
  ("A number should have been here; I inserted `0'.",
    "Hier sollte eine Zahl stehen; `0' wurde eingefügt.")]

def wording (language : Language) (text : String) : String :=
  if language.isGerman then (catalogue.lookup text).getD text else text

end Compositor.German
