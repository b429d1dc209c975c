import TypedContent.Text.Basic

/-!
# Shared types

The declarations at the top of every types module: JSON values, media, the
operators of filters, pagination and sorting, the answers of the server, and
the choice of fields. They are the same for every schema and written down as
text.
-/

namespace TypedContent

namespace SharedTypes

/-- The names that the shared declarations export. -/
def names : List String :=
  ["JsonValue", "BlocksContent", "MediaFormat", "MediaFile", "StringFilter",
    "NumberFilter", "BooleanFilter", "DateFilter", "IdFilter", "PaginationParams",
    "SortParam", "PaginationMeta", "ResponseMeta", "ListResponse", "SingleResponse",
    "QueryParams", "SelectFields"]

/-- Contents of fields: JSON values, blocks of rich text and media. -/
def contentTypes : List String :=
  ["export type JsonValue =",
    "  | string",
    "  | number",
    "  | boolean",
    "  | null",
    "  | JsonValue[]",
    "  | \x7b [key: string]: JsonValue \x7d;",
    "",
    "export type BlocksContent = Array<\x7b type: string; children?: unknown[]; [key: string]: unknown \x7d>;",
    "",
    "export interface MediaFormat \x7b",
    "  name: string;",
    "  url: string;",
    "  width: number;",
    "  height: number;",
    "  size: number;",
    "  mime: string;",
    "  ext: string;",
    "\x7d",
    "",
    "export interface MediaFile \x7b",
    "  id: number;",
    "  documentId: string;",
    "  name: string;",
    "  alternativeText: string | null;",
    "  caption: string | null;",
    "  width: number | null;",
    "  height: number | null;",
    "  formats: Record<string, MediaFormat> | null;",
    "  hash: string;",
    "  ext: string;",
    "  mime: string;",
    "  size: number;",
    "  url: string;",
    "  previewUrl: string | null;",
    "  provider: string;",
    "  createdAt: string;",
    "  updatedAt: string;",
    "\x7d"]

/-- The operators that plain values, relations and media may be filtered
with. -/
def filterTypes : List String :=
  ["export interface StringFilter \x7b",
    "  $eq?: string;",
    "  $eqi?: string;",
    "  $ne?: string;",
    "  $nei?: string;",
    "  $in?: string[];",
    "  $notIn?: string[];",
    "  $contains?: string;",
    "  $notContains?: string;",
    "  $containsi?: string;",
    "  $notContainsi?: string;",
    "  $startsWith?: string;",
    "  $startsWithi?: string;",
    "  $endsWith?: string;",
    "  $endsWithi?: string;",
    "  $null?: boolean;",
    "  $notNull?: boolean;",
    "\x7d",
    "",
    "export interface NumberFilter \x7b",
    "  $eq?: number;",
    "  $ne?: number;",
    "  $lt?: number;",
    "  $lte?: number;",
    "  $gt?: number;",
    "  $gte?: number;",
    "  $in?: number[];",
    "  $notIn?: number[];",
    "  $between?: [number, number];",
    "  $null?: boolean;",
    "  $notNull?: boolean;",
    "\x7d",
    "",
    "export interface BooleanFilter \x7b",
    "  $eq?: boolean;",
    "  $ne?: boolean;",
    "  $null?: boolean;",
    "  $notNull?: boolean;",
    "\x7d",
    "",
    "export interface DateFilter \x7b",
    "  $eq?: string;",
    "  $ne?: string;",
    "  $lt?: string;",
    "  $lte?: string;",
    "  $gt?: string;",
    "  $gte?: string;",
    "  $in?: string[];",
    "  $notIn?: string[];",
    "  $between?: [string, string];",
    "  $null?: boolean;",
    "  $notNull?: boolean;",
    "\x7d",
    "",
    "export interface IdFilter \x7b",
    "  id?: NumberFilter | number;",
    "  documentId?: StringFilter | string;",
    "  $null?: boolean;",
    "  $notNull?: boolean;",
    "\x7d"]

/-- Pagination and sorting. -/
def queryTypes : List String :=
  ["export interface PaginationParams \x7b",
    "  page?: number;",
    "  pageSize?: number;",
    "  start?: number;",
    "  limit?: number;",
    "  withCount?: boolean;",
    "\x7d",
    "",
    "type SortKey<T> = Extract<keyof T, string>;",
    "",
    "export type SortParam<T = Record<string, unknown>> =",
    "  | SortKey<T>",
    "  | `$\x7bSortKey<T>\x7d:$\x7b\"asc\" | \"desc\"\x7d`",
    "  | Array<SortKey<T> | `$\x7bSortKey<T>\x7d:$\x7b\"asc\" | \"desc\"\x7d`>;"]

/-- What the server answers, and what it may be asked. -/
def answerTypes : List String :=
  ["export interface PaginationMeta \x7b",
    "  page: number;",
    "  pageSize: number;",
    "  pageCount: number;",
    "  total: number;",
    "\x7d",
    "",
    "export interface ResponseMeta \x7b",
    "  pagination?: PaginationMeta;",
    "\x7d",
    "",
    "export interface ListResponse<T> \x7b",
    "  data: T[];",
    "  meta: ResponseMeta;",
    "\x7d",
    "",
    "export interface SingleResponse<T> \x7b",
    "  data: T;",
    "  meta: ResponseMeta;",
    "\x7d",
    "",
    "export interface QueryParams<T, TFilters> \x7b",
    "  filters?: TFilters;",
    "  fields?: (keyof T)[];",
    "  sort?: SortParam<T>;",
    "  pagination?: PaginationParams;",
    "  status?: \"draft\" | \"published\";",
    "  locale?: string;",
    "\x7d"]

/-- The fields of `T` that the options `S` select. The identity fields are
always among them. -/
def selectionTypes : List String :=
  ["/** Narrow `T` to the selected fields, always keeping identity fields. */",
    "export type SelectFields<T, S> = S extends \x7b fields: readonly (infer F)[] \x7d",
    "  ? Pick<T, Extract<F | \"id\" | \"documentId\", keyof T>>",
    "  : T;"]

/-- The text of the shared declarations. -/
def text : String :=
  Text.unlines (contentTypes ++ "" :: filterTypes ++ "" :: queryTypes ++ "" :: answerTypes
    ++ "" :: selectionTypes)

end SharedTypes

end TypedContent
