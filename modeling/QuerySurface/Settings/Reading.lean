import QuerySurface.Settings.Basic
import QuerySurface.Settings.Conversion

/-!
# Typed settings

The conversion of each group of settings. Whatever is not set keeps its default; only a
mapping of scalars that is set replaces the usual one as a whole.
-/

namespace QuerySurface.Settings.Conversion

/-- Converts input settings. -/
def input : Conversion Input :=
  record
    [ field "schema" text fun schema input => { input with schema },
      field "extensions" (list text) fun extensions input => { input with extensions } ]
    .usual

/-- Converts output settings. -/
def output : Conversion Output :=
  record
    [ field "dir" text fun directory output => { output with directory },
      field "format" (choice Format.choices) fun format output => { output with format } ]
    .usual

/-- Converts directive names. -/
def directives : Conversion Schema.Directives :=
  record
    [ field "primary_key" text fun primaryKey names => { names with primaryKey },
      field "required" text fun required names => { names with required },
      field "default" text fun default names => { names with default },
      field "selection" text fun selection names => { names with selection },
      field "resolve" text fun resolve names => { names with resolve } ]
    .usual

/-- Converts strictness settings. -/
def strictness : Conversion Schema.Strictness :=
  record
    [ field "duplicate_definition" (choice Schema.Level.choices)
        fun level strictness => { strictness with duplicateDefinition := level },
      field "unresolved_interface" (choice Schema.Level.choices)
        fun level strictness => { strictness with unresolvedInterface := level } ]
    .lenient

/-- Converts a decoration. -/
def decoration : Conversion Layout.Decoration :=
  record
    [ field "prefix" (optional text) fun front decoration => { decoration with front },
      field "postfix" (optional text) fun back decoration => { decoration with back } ]
    .plain

/-- Converts decorations. -/
def decorations : Conversion Layout.Decorations :=
  record
    [ field "entity" decoration fun entity all => { all with entity },
      field "projection" decoration fun projection all => { all with projection },
      field "qualification" decoration fun qualification all => { all with qualification },
      field "qualified_projection" decoration
        fun qualifiedProjection all => { all with qualifiedProjection },
      field "on_subtype" decoration fun onSubtype all => { all with onSubtype },
      field "selection" decoration fun selection all => { all with selection },
      field "query" decoration fun query all => { all with query } ]
    .usual

/-- Converts the wanted families. -/
def families : Conversion Layout.Families :=
  record
    [ field "enabled" flag fun enabled families => { families with enabled },
      field "entity" flag fun entity families => { families with entity },
      field "projection" flag fun projection families => { families with projection },
      field "selection" flag fun selection families => { families with selection },
      field "qualification" flag fun qualification families => { families with qualification },
      field "qualified_projection" flag
        fun qualifiedProjection families => { families with qualifiedProjection } ]
    .all

/-- Converts the names of the generated parameters. -/
def parameters : Conversion Layout.ParameterNames :=
  record
    [ field "projection_argument" text fun projection names => { names with projection },
      field "query_argument" text fun query names => { names with query } ]
    .usual

/-- Converts the mapping of scalars. A mapping that is given replaces the usual one. -/
def scalars : Conversion Layout.Scalars :=
  record
    [ field "types" (table text) fun types scalars => { scalars with types },
      field "fallback" text fun fallback scalars => { scalars with fallback } ]
    .usual

/-- Converts a layout. -/
def layout : Conversion Layout :=
  record
    [ field "families" families fun families layout => { layout with families },
      field "decorations" decorations fun decorations layout => { layout with decorations },
      field "arguments" parameters fun parameters layout => { layout with parameters },
      field "scalars" scalars fun scalars layout => { layout with scalars } ]
    .usual

/-- Converts settings. -/
def settings : Conversion Settings :=
  record
    [ field "input" input fun input all => { all with input },
      field "output" output fun output all => { all with output },
      field "directives" directives fun directives all => { all with directives },
      field "strictness" strictness fun strictness all => { all with strictness },
      field "layout" layout fun layout all => { all with layout } ]
    .usual

end QuerySurface.Settings.Conversion
