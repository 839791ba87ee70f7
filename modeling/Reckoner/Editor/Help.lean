/-!
# Help

The text that the editor shows as help.
-/

namespace Reckoner

/-- The lines of the help. -/
def helpLines : List String :=
  ["MATHPAD REFERENCE",
    "",
    "=== BASIC CONCEPTS ===",
    "• Every line is evaluated on its own; its result is shown to the right",
    "• Lines that do not evaluate simply show nothing",
    "• Variables assigned on one line are visible on the lines below",
    "• last        The result of the previous line",
    "• # comment   Everything after # is ignored",
    "• x = 5;      A trailing ; hides the result",
    "",
    "=== OPERATORS ===",
    "+ - * / %       Arithmetic (% is the remainder)",
    "^ or **         Power                       2^10 → 1,024",
    "< <= > >= == != Comparisons, 1 for true and 0 for false",
    "2 pi, 3(4 + 1)  Implicit multiplication binds tighter than * and /",
    "",
    "=== UNITS ===",
    "5 km to mi                  Conversion with \"to\" or \"in\"",
    "100 km / 2 h to m / s       Compound units",
    "3 m * 2 m                   → 6 m^2",
    "Prefixes work on SI units:  km, mg, ms, kWh, GB",
    "",
    "=== DATES ===",
    "today, now                  The current date and time",
    "today + 3 days              Dates move by durations",
    "now - today                 Difference of dates in seconds",
    "",
    "=== CURRENCIES ===",
    "10 USD to EUR               Available once exchange rates have loaded",
    "                            (see the header for their status)",
    "",
    "=== FUNCTIONS ===",
    "sqrt cbrt abs round floor ceil exp log log10 log2",
    "sin cos tan asin acos atan min max sum mean pow",
    "f(x) = x^2 + 1              Define your own",
    "",
    "=== KEYS ===",
    "Ctrl+S / Ctrl+O             Save / load a text file",
    "Ctrl+Y                      Copy the current line's result",
    "F1                          Show this help",
    "Ctrl+Q                      Quit"]

end Reckoner
