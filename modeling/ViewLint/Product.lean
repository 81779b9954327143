/-!
# The product

The name and the version under which the program introduces itself, in reports, to editors and on
the command line.
-/

namespace ViewLint.Product

/-- The name of the program. -/
def name : String := "viewphp-lsp"

/-- The version of the program: it is built from its sources. -/
def version : String := "(devel)"

end ViewLint.Product
